import ScriptContainer.Proofs.ComposedReads
import ScriptContainer.Proofs.ReadingSections

/-!
# Reading a given container

What a given container is parsed as can be computed. Its sections are read up to its code region, whose
parts are put in their order one after the other.
-/

namespace ScriptContainer

lemma Read.word_of_ok {r r' : Reader} {w : UInt32} (h : word r = .ok w r') : r' = r.skip 4 := by
  obtain ⟨n, rfl, hr'⟩ := word_consumes.of_ok h
  exact hr'

lemma Read.word_of_value {r : Reader} {w : UInt32}
    (h : (match Read.word r with
      | .ok v _ => some v
      | .error _ _ => none) = some w) :
    Read.word r = .ok w (r.skip 4) := by
  cases hrun : Read.word r with
  | error e t =>
    rw [hrun] at h
    cases h
  | ok v t =>
    rw [hrun] at h
    obtain rfl : v = w := Option.some.inj h
    exact congrArg _ (Read.word_of_ok hrun)

lemma Read.code_of_word {options : Options} {declared : Script} {bytes : Array UInt8} {base : Nat}
    {count : UInt32} (h : word ⟨bytes, base⟩ = .ok count ⟨bytes, base + 4⟩) :
    code options declared ⟨bytes, base⟩ =
      if count.toNat * 4 ≠ Reader.remaining ⟨bytes, base + 4⟩ then
        .error (.malformed base
          (.codeLength count.toNat (Reader.remaining ⟨bytes, base + 4⟩))) ⟨bytes, base + 4⟩
      else (do
        let found ← region declared
        (found.apply declared).functions.records.forM (checkLabels options)
        return found.apply declared : Read Script) ⟨bytes, base + 4⟩ := by
  have hoffset : offset ⟨bytes, base⟩ = .ok base ⟨bytes, base⟩ := rfl
  have hget : (get : Read Reader) ⟨bytes, base + 4⟩ = .ok ⟨bytes, base + 4⟩ ⟨bytes, base + 4⟩ := rfl
  unfold code
  rw [bind_of_ok hoffset, bind_of_ok h, bind_of_ok hget]
  dsimp only
  split <;> rfl

variable {bytes : Array UInt8} {base : Nat}

/-- What the sections of a container before the code region declare. -/
def declaredIn (bytes : Array UInt8) : Script :=
  match Read.declarations ⟨bytes, magic.length⟩ with
  | .ok s _ => s
  | .error _ _ => Script.new

/-- The sections of the container can be read up to `base`, and as many words follow as it says. -/
structure Opens (bytes : Array UInt8) (base : Nat) : Prop where
  starts : bytes.toList.take magic.length = magic
  sections : (match Read.declarations ⟨bytes, magic.length⟩ with
    | .ok _ r => some r.offset
    | .error _ _ => none) = some base
  count : (match Read.word ⟨bytes, base⟩ with
    | .ok count _ => some (count.toNat * 4)
    | .error _ _ => none) = some (Reader.remaining ⟨bytes, base + 4⟩)

instance : Decidable (Opens bytes base) :=
  decidable_of_iff (_ ∧ _ ∧ _) ⟨fun h => ⟨h.1, h.2.1, h.2.2⟩, fun h => ⟨h.starts, h.sections, h.count⟩⟩

/-- What is in the code region after `base`, if the sections before it declare the script. -/
def scan (s : Script) (bytes : Array UInt8) (base : Nat) : EStateM.Result Error Walk Findings :=
  let ctx := (Context.new s).withCodeBase (base + 4)
  let run : Walking Findings := do
    let _ ← s.insertedSchedule.foldlM (Walking.part ctx) s.nextFunctionId
    let trailing ← Walking.ofRead (do Read.wordsUntil (← Read.length))
    Walking.note fun found => { found with trailing }
    return (← get).findings
  run ⟨⟨bytes, base + 4⟩, .nothing, ⟨[], [], [], [], []⟩⟩

/-- The script that results, if there is one. -/
def scanned? (s : Script) (bytes : Array UInt8) (base : Nat) : Option Script :=
  match scan s bytes base with
  | .ok found _ => some (found.apply s)
  | .error _ _ => none

lemma scan_eq (s : Script) (bytes : Array UInt8) (base : Nat) :
    scan s bytes base = Walking.region ((Context.new s).withCodeBase (base + 4))
      ⟨⟨bytes, base + 4⟩, .nothing, ⟨[], [], [], [], []⟩⟩ := by
  have hscript : ((Context.new s).withCodeBase (base + 4)).script = s := rfl
  unfold Walking.region
  rw [hscript, Script.schedule_eq_insertedSchedule]
  rfl

namespace Opens

variable (h : Opens bytes base)
include h

lemma declarations_eq :
    Read.declarations ⟨bytes, magic.length⟩ = .ok (declaredIn bytes) ⟨bytes, base⟩ := by
  have hsections := h.sections
  cases hrun : Read.declarations ⟨bytes, magic.length⟩ with
  | error e r =>
    rw [hrun] at hsections
    cases hsections
  | ok s r =>
    have hbytes : r.bytes = bytes := Composed.declarations.bytes_eq hrun
    have hdeclared : declaredIn bytes = s := by
      unfold declaredIn
      rw [hrun]
    rw [hrun] at hsections
    obtain ⟨bytes', offset⟩ := r
    obtain rfl : bytes' = bytes := hbytes
    obtain rfl : offset = base := Option.some.inj hsections
    rw [hdeclared]

/-- The script is what the sections declare, with what is in the code region. -/
lemma parse_eq : Script.parse .lenient bytes =
    match scan (declaredIn bytes) bytes base with
    | .ok found _ => .ok (found.apply (declaredIn bytes))
    | .error e _ => .error e := by
  have hcount := h.count
  cases hword : Read.word ⟨bytes, base⟩ with
  | error e r =>
    rw [hword] at hcount
    cases hcount
  | ok count r =>
    obtain rfl : r = ⟨bytes, base + 4⟩ := Read.word_of_ok hword
    rw [hword] at hcount
    have hlength : ¬ count.toNat * 4 ≠ Reader.remaining ⟨bytes, base + 4⟩ :=
      not_not.mpr (Option.some.inj hcount)
    have hcode (s : Script) := @Read.code_of_word .lenient s _ _ _ hword
    unfold Script.parse
    rw [if_neg (not_not.mpr h.starts), Read.script_eq, bind_of_ok h.declarations_eq, hcode,
      if_neg hlength, scan_eq]
    cases hregion : Walking.region ((Context.new (declaredIn bytes)).withCodeBase (base + 4))
        ⟨⟨bytes, base + 4⟩, .nothing, ⟨[], [], [], [], []⟩⟩ with
    | ok found walk =>
      have hlabels : (found.apply (declaredIn bytes)).functions.records.forM
          (Read.checkLabels .lenient) walk.reader = .ok () walk.reader := Read.forM_apply fun f _ => rfl
      rw [bind_of_ok (Read.region_of_ok hregion)]
      dsimp only
      rw [bind_of_ok hlabels]
      rfl
    | error e walk =>
      have hfails : Read.region (declaredIn bytes) ⟨bytes, base + 4⟩ = .error e walk.reader := by
        unfold Read.region
        dsimp only
        rw [hregion]
      rw [bind_of_error hfails]

lemma parse_of_scanned {s : Script} (hs : scanned? (declaredIn bytes) bytes base = some s) :
    Script.parse .lenient bytes = .ok s := by
  unfold scanned? at hs
  rw [h.parse_eq]
  cases hscan : scan (declaredIn bytes) bytes base with
  | ok found walk =>
    rw [hscan] at hs
    exact congrArg Except.ok (Option.some.inj hs)
  | error e walk =>
    rw [hscan] at hs
    cases hs

lemma exists_parse {α : Type} {look : Script → α} {x : α}
    (hlook : (scanned? (declaredIn bytes) bytes base).map look = some x) :
    ∃ s, Script.parse .lenient bytes = .ok s ∧ look s = x := by
  obtain ⟨s, hs, hx⟩ := Option.map_eq_some_iff.mp hlook
  exact ⟨s, h.parse_of_scanned hs, hx⟩

lemma parse_error {e : Error} (hfails : failure? (scan (declaredIn bytes) bytes base) = some e) :
    Script.parse .lenient bytes = .error e := by
  obtain ⟨walk, hscan⟩ := failure?_eq_some_iff.mp hfails
  rw [h.parse_eq, hscan]

end Opens

end ScriptContainer
