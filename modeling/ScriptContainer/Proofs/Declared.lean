import ScriptContainer.Proofs.FreeIds
import ScriptContainer.Proofs.Prefixes

/-!
# Declared functions beside code that belongs to none

The script of a container holds the functions of its function section, in the order of that section,
and one function more for each stretch of other code. The ids of the latter follow the greatest declared
id. Where they start again from zero they may be those of declared functions, which are lost then.
-/

namespace ScriptContainer

/-- The function section of a container, which starts where the second word of the header says. -/
structure FunctionSection (bytes : Array UInt8) (start : UInt32) (records : List Function) : Prop where
  header : Read.word ⟨bytes, magic.length + 4⟩ = .ok start ⟨bytes, magic.length + 8⟩
  counted : ∃ r, Read.counted Read.function ⟨bytes, 4 * start.toNat⟩ = .ok records r

namespace Read

variable {r r' : Reader} {s : Script}

lemma enter_of_ok {sections : List Nat} {index : Nat} {x : Unit}
    (h : enter sections index r = .ok x r') : r = r' := by
  obtain ⟨here, t, ⟨⟩, h⟩ := run_bind_eq_ok_iff.mp h
  split at h
  · exact (EStateM.Result.ok.inj h).2
  · cases h

lemma variableSection_functions (s : Script) (scope : Scope) :
    Answers (variableSection s scope) fun t => t.functions = s.functions := by
  refine .after fun vars => .pure ?_
  rw [Script.foldl_addVariable]

lemma declarations_functions (h : declarations r = .ok s r') :
    ∃ start records t, word (r.skip 4) = .ok start (r.skip 8) ∧
      counted function ⟨r.bytes, 4 * start.toNat⟩ = .ok records t ∧ s.functions = .ofList records := by
  obtain ⟨sections, t, hsections, h⟩ := run_bind_eq_ok_iff.mp h
  obtain ⟨start, hstart, hsecond⟩ := sectionOffsets_of_ok hsections (i := 1) (by decide)
  have hbytes := Composed.sectionOffsets.bytes_eq hsections
  obtain ⟨_, t, henter, h⟩ := run_bind_eq_ok_iff.mp h
  obtain rfl := enter_of_ok henter
  obtain ⟨front, t, hfront, h⟩ := run_bind_eq_ok_iff.mp h
  obtain ⟨-, rfl⟩ := (wordsUntil_outcome _ _).of_ok hfront
  obtain ⟨_, t, henter, h⟩ := run_bind_eq_ok_iff.mp h
  obtain rfl := enter_of_ok henter
  obtain ⟨records, t, hrecords, h⟩ := run_bind_eq_ok_iff.mp h
  rw [hbytes, hsecond] at hrecords
  refine ⟨start, records, t, hstart, hrecords, ?_⟩
  -- The sections that follow add no function.
  refine Answers.of_ok (?_ : Answers _ fun s => s.functions = .ofList records) h
  refine .after fun _ => (variableSection_functions _ .static).bind fun withStatics hstatics => ?_
  refine .after fun _ => .after fun tables => .after fun words => .after fun _ => ?_
  refine (variableSection_functions _ .constant).bind fun withConstants hconstants => ?_
  refine .after fun _ => .after fun imports => .after fun _ => ?_
  refine (variableSection_functions _ .global).bind fun s hs => .after fun _ => .pure ?_
  rw [hs, Script.foldl_addImport, hconstants, hstatics, Script.foldl_addFunction]
  rfl

end Read

namespace Findings

variable {gaps : List (Placement × Function)} {s : Script}

variable {found : Findings} {bytes : Array UInt8} {base stop : Nat}

lemma Accounts.mem_bodies (h : found.Accounts s bytes base stop) {f : Function}
    (hf : f ∈ (found.filled s).functions.records) : (f.id, f.code) ∈ found.bodies := by
  obtain ⟨filled, hfilled, rfl⟩ := List.mem_map.mp hf
  obtain ⟨g, hg, rfl⟩ := List.mem_map.mp hfilled
  have hid : g.id ∈ found.bodies.map Prod.fst := h.bodies.mem_iff.mpr (List.mem_map_of_mem hg)
  obtain ⟨⟨_, code⟩, hbody, rfl⟩ := List.mem_map.mp hid
  have hn : (found.bodies.map Prod.fst).Nodup := h.bodies.nodup_iff.mpr s.functions.nodup
  rw [Function.fill_of_mem hn hbody]
  exact hbody

end Findings

namespace Script

/-- What becomes of the records of the function section, and of the code that was found beside the
declared functions. -/
structure KeepsDeclared (s : Script) (records : List Function) (declared : Script) (found : Findings) :
    Prop where
  functions : declared.functions = .ofList records
  /-- Of records with the same id the last one counts. -/
  last : ∀ id, declared.functions.get? id = records.reverse.find? fun f => f.id == id
  /-- Every function of the section has the code that was read for it. -/
  decoded : ∀ f ∈ (found.filled declared).functions.records,
    f.isDeclared = true ∧ (f.id, f.code) ∈ found.bodies
  /-- There is one function without declaration for each stretch of other code. -/
  undeclared : s.undeclared.Perm (found.gaps.map Prod.snd)
  distinct : (s.undeclared.map Function.id).Nodup
  ids : found.gaps.map (fun gap => gap.2.id) = (List.range found.gaps.length).map declared.gapId
  /-- Declared functions stay in order; those are lost whose ids are given a second time. -/
  kept : s.declared = (found.filled declared).functions.records.filter fun f =>
    f.id ∉ (List.range found.gaps.length).map declared.gapId
  /-- No function is lost exactly where no id that follows the greatest one is taken. -/
  all_iff : s.declared = (found.filled declared).functions.records ↔
    ∀ n < found.gaps.length, declared.gapId n ∉ declared.functions.ids
  /-- No id is taken where the greatest one leaves enough numbers. -/
  room : (∀ id ∈ declared.functions.ids, id.toNat + found.gaps.length < UInt32.size) →
    ∀ n < found.gaps.length, declared.gapId n ∉ declared.functions.ids

namespace Accounted

variable {bytes : Array UInt8} {s declared : Script} {base : Nat} {count : UInt32} {found : Findings}
variable (h : s.Accounted bytes declared base count found)
include h

lemma gapIds_eq :
    found.gaps.map (fun gap => gap.2.id) = (List.range found.gaps.length).map declared.gapId :=
  h.isBound.ids

lemma declared_eq : s.declared = (found.filled declared).functions.records.filter fun f =>
    f.id ∉ (List.range found.gaps.length).map declared.gapId := by
  have hgaps : ∀ gap ∈ found.gaps, gap.2.isDeclared = false := fun gap hgap =>
    (h.isBound.gaps gap hgap).isDeclared
  have hall : (found.filled declared).declared = (found.filled declared).functions.records :=
    List.filter_eq_self.mpr fun f hf => Findings.isDeclared_of_mem_filled h.isDeclared hf
  rw [Script.declared, h.functions_eq, ← Script.declared, Findings.declared_addGaps hgaps, hall,
    h.gapIds_eq]

lemma declared_eq_filled_iff : s.declared = (found.filled declared).functions.records ↔
    ∀ n < found.gaps.length, declared.gapId n ∉ declared.functions.ids := by
  rw [h.declared_eq, List.filter_eq_self, ← found.ids_filled declared]
  constructor
  · intro hall n hn hmem
    obtain ⟨f, hf, hid⟩ := List.mem_map.mp hmem
    refine of_decide_eq_true (hall f hf) (List.mem_map.mpr ⟨n, List.mem_range.mpr hn, ?_⟩)
    exact hid.symm
  · intro hall f hf
    refine decide_eq_true fun hmem => ?_
    obtain ⟨n, hn, hid⟩ := List.mem_map.mp hmem
    exact hall n (List.mem_range.mp hn) (List.mem_map.mpr ⟨f, hf, hid.symm⟩)

lemma gapId_notMem (hroom : ∀ id ∈ declared.functions.ids, id.toNat + found.gaps.length < UInt32.size)
    {n : Nat} (hn : n < found.gaps.length) : declared.gapId n ∉ declared.functions.ids := by
  have hall := nodup_ids_append_gapIds hroom h.length_gaps_lt.le
  intro hmem
  exact List.disjoint_of_nodup_append hall hmem
    (List.mem_map_of_mem (List.mem_range.mpr hn))

lemma nodup_undeclared : (s.undeclared.map Function.id).Nodup := by
  rw [(h.perm_undeclared.map Function.id).nodup_iff, List.map_map]
  exact h.nodup_gapIds

end Accounted

/-- The script of an accepted container holds each function of the function section with the code that
was read for it, in the order of the section, and one function for each stretch of other code, as far
as the ids that the latter are given are not taken. -/
theorem parse_keepsDeclared {options : Options} {bytes : Array UInt8} {s : Script}
    (h : parse options bytes = .ok s) :
    ∃ start records declared base count found, FunctionSection bytes start records ∧
      s.Accounted bytes declared base count found ∧ s.KeepsDeclared records declared found := by
  obtain ⟨declared, base, count, found, hall⟩ := exists_accounted h
  obtain ⟨start, records, r, hheader, hrecords, hfunctions⟩ := Read.declarations_functions hall.sections
  refine ⟨start, records, declared, base, count, found, ⟨hheader, r, hrecords⟩, hall, ?_⟩
  exact {
    functions := hfunctions
    last := fun id => by
      rw [hfunctions, Registry.ofList, Registry.get?_foldl_insert]
      exact Option.or_none
    decoded := fun f hf =>
      ⟨Findings.isDeclared_of_mem_filled hall.isDeclared hf, hall.accounts.mem_bodies hf⟩
    undeclared := hall.perm_undeclared
    distinct := hall.nodup_undeclared
    ids := hall.gapIds_eq
    kept := hall.declared_eq
    all_iff := hall.declared_eq_filled_iff
    room := fun hroom n hn => hall.gapId_notMem hroom hn }

theorem lodge_keepsDeclared : ∃ s, parse .lenient lodge = .ok s ∧
    ∃ start records declared base count found, FunctionSection lodge start records ∧
      s.Accounted lodge declared base count found ∧ s.KeepsDeclared records declared found := by
  obtain ⟨s, hparse, -⟩ := lodge_parses
  exact ⟨s, hparse, parse_keepsDeclared hparse⟩

end Script

/-- A container that declares functions with the greatest id and with the least one, and has code before
that of both. -/
def brim : Array UInt8 :=
  (magic ++ bytesOfWords [11, 11, 34, 35, 36, 37, 38, 39, 0, 2,
    0, 0xffffffff, 0, 0, 1, 2, 0, 0, 0, 0, 0, 0, 0, 0, 0, 2, 3, 0, 0, 0, 0, 0, 0, 0, 0, 0, 0,
    3, 2, 9, 9]).toArray

lemma brim_functionSection : ∃ records, FunctionSection brim 11 records ∧
    records.map Function.id = [0xffffffff, 0] := by
  have hids : (match Read.counted Read.function ⟨brim, 44⟩ with
    | .ok records _ => records.map Function.id
    | .error _ _ => []) = [0xffffffff, 0] := by decide +kernel
  cases hrun : Read.counted Read.function ⟨brim, 44⟩ with
  | error e r =>
    rw [hrun] at hids
    cases hids
  | ok records r =>
    rw [hrun] at hids
    exact ⟨records, ⟨Read.word_of_value (by decide +kernel), r, hrun⟩, hids⟩

/-- The id that follows the greatest one is the least one, whose declared function is lost. -/
theorem Script.brim_displaces : ∃ s start records, parse .lenient brim = .ok s ∧
    FunctionSection brim start records ∧ records.map Function.id = [0xffffffff, 0] ∧
    (s.functions.records.map fun f => (f.id, f.isDeclared)) = [(0xffffffff, true), (0, false)] := by
  have hopens : Opens brim 156 := by decide +kernel
  have hlook : (scanned? (declaredIn brim) brim 156).map (fun s =>
      s.functions.records.map fun f => (f.id, f.isDeclared)) =
    some [(0xffffffff, true), (0, false)] := by decide +kernel
  obtain ⟨records, hsection, hids⟩ := brim_functionSection
  obtain ⟨s, hparse, hs⟩ := hopens.exists_parse hlook
  exact ⟨s, 11, records, hparse, hsection, hids, hs⟩

end ScriptContainer
