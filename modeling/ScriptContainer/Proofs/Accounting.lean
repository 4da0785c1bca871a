import ScriptContainer.Proofs.CoveredRegion
import ScriptContainer.Proofs.Scanning

/-!
# Accounting for the code region

A container is accepted only if the bytes of its code region are accounted for: each belongs to one
instruction, to one table or to one word at the end, and functions lie apart or inside each other.
-/

namespace ScriptContainer

/-- The two spans share no byte. -/
def Apart (a b : Nat × Nat) : Prop := a.2 ≤ b.1 ∨ b.2 ≤ a.1

/-- The first span lies inside the second. -/
def Within (a b : Nat × Nat) : Prop := b.1 ≤ a.1 ∧ a.2 ≤ b.2

lemma Apart.symm {a b : Nat × Nat} (h : Apart a b) : Apart b a := Or.symm h

namespace Function

/-- The functions lie apart, or one of them lies inside the other, is inline and starts later. -/
def Fits (f g : Function) : Prop :=
  Apart f.span g.span ∨ (g.isInline = true ∧ f.span.1 < g.span.1 ∧ Within g.span f.span) ∨
    (f.isInline = true ∧ g.span.1 < f.span.1 ∧ Within f.span g.span)

lemma Fits.symm {f g : Function} (h : f.Fits g) : g.Fits f := by
  rcases h with h | h | h
  · exact .inl h.symm
  · exact .inr (.inr h)
  · exact .inr (.inl h)

instance : Std.Symm Fits := ⟨fun _ _ h => h.symm⟩

lemma Fits.isInline_of_within {f g : Function} (h : f.Fits g) (hbytes : f.span.1 < f.span.2)
    (hwithin : Within f.span g.span) : f.isInline = true := by
  obtain ⟨hstart, hstop⟩ := hwithin
  rcases h with (h | h) | ⟨-, h, -⟩ | ⟨h, -⟩
  · omega
  · omega
  · omega
  · exact h

namespace StandsAt

variable {f g : Function} {p q : Plot}

lemma span_eq (h : f.StandsAt p) : f.span = p.span := Prod.ext h.start h.stop

lemma fits (hf : f.StandsAt p) (hg : g.StandsAt q) (h : p.Fits q) : f.Fits g := by
  unfold Fits
  rw [hf.span_eq, hg.span_eq, hf.isInline, hg.isInline]
  rcases h with h | h | ⟨hinline, hlt, hle⟩ | ⟨hinline, hlt, hle⟩
  · exact .inl (.inl h)
  · exact .inl (.inr h)
  · exact .inr (.inl ⟨hinline, hlt, hlt.le, hle⟩)
  · exact .inr (.inr ⟨hinline, hlt, hlt.le, hle⟩)

end StandsAt

end Function

/-- All functions that were found: those that were declared, with their code, and those made of
other code. -/
def Findings.functions (found : Findings) (s : Script) : List Function :=
  s.functions.records.map (Function.fill found.inlined found.bodies) ++ found.gaps.map Prod.snd

/-- What was found from `base` on accounts for the bytes up to `stop`. -/
structure Findings.Accounts (found : Findings) (s : Script) (bytes : Array UInt8) (base stop : Nat) :
    Prop where
  /-- Every declared function was read once. -/
  bodies : (found.bodies.map Prod.fst).Perm s.functions.ids
  /-- Every table was read once. -/
  tables : (found.tables.map Prod.fst).Perm (s.allTables.map Prod.fst)
  laminar : (found.functions s).Pairwise fun f g =>
    Apart f.span g.span ∨ Within f.span g.span ∨ Within g.span f.span
  inline_iff : ∀ f ∈ found.functions s, f.span.1 < f.span.2 →
    (f.isInline = true ↔ ∃ g ∈ found.functions s, g ≠ f ∧ Within f.span g.span)
  /-- An inline function follows an instruction that starts it. -/
  starts : ∀ f ∈ found.functions s, f.isInline = true →
    ∃ g ∈ found.functions s, Within f.span g.span ∧ ∃ i ∈ g.code, i.spawned? = some f.id ∧
      g.span.1 + i.size ≤ f.span.1 ∧ s.Finds bytes base (i, f.span.1)
  payloads : s.allTables.Pairwise fun a b => Apart a.2.span b.2.span
  apart : ∀ entry ∈ s.allTables, ∀ f ∈ found.functions s, Apart entry.2.span f.span
  total : base + ((found.bodies.map fun entry => codeSize entry.2).sum +
    (found.gaps.map fun entry => codeSize entry.2.code).sum +
    (s.allTables.map fun entry => entry.2.payloadSize).sum + 4 * found.trailing.length) = stop

section Lists

variable {α β : Type} {R : α → β → Prop} {xs : List α} {ys : List β}

lemma pairwise_of_forall₂ {S : β → β → Prop} {T : α → α → Prop} (h : List.Forall₂ R xs ys)
    (hys : ys.Pairwise S) (hst : ∀ {x x' y y'}, R x y → R x' y' → S y y' → T x x') :
    xs.Pairwise T := by
  induction h with
  | nil => exact .nil
  | @cons x y xs ys hxy hrest ih =>
    rw [List.pairwise_cons] at hys ⊢
    refine ⟨fun x' hx' => ?_, ih hys.2⟩
    obtain ⟨y', hy', hxy'⟩ := forall₂_exists_right hrest hx'
    exact hst hxy hxy' (hys.1 y' hy')

end Lists

namespace Walking.Covered

variable {s : Script} {bytes : Array UInt8} {base reach : Nat} {walk : Walk}
  {plots others : List Plot} {entries : List (TableRef × Table)}

/-- All parts of the script have been read. -/
structure IsComplete (s : Script) (walk : Walk) : Prop where
  functions : ∀ f ∈ s.functions.records, .function f.id ∈ walk.seen.parts
  tables : ∀ entry ∈ s.allTables, .table entry.1 ∈ walk.seen.parts

variable (h : Covered s bytes base walk plots others entries reach)
include h

lemma nodup_ids : (plots.map Plot.id).Nodup := by
  have hall := h.seen.nodup_iff.mp h.once
  have hparts := (List.nodup_append.mp hall).1
  rw [show plots.map (fun p => Part.function p.id) = (plots.map Plot.id).map Part.function from
    (List.map_map ..).symm] at hparts
  exact hparts.of_map _

lemma nodup_refs : (entries.map Prod.fst).Nodup := by
  have hall := h.seen.nodup_iff.mp h.once
  have hparts := (List.nodup_append.mp hall).2.1
  rw [show entries.map (fun entry => Part.table entry.1) = (entries.map Prod.fst).map Part.table from
    (List.map_map ..).symm] at hparts
  exact hparts.of_map _

lemma function_mem_iff {id : RecordId} : .function id ∈ walk.seen.parts ↔ id ∈ plots.map Plot.id := by
  rw [h.seen.mem_iff, List.mem_append]
  simp

lemma table_mem_iff {ref : TableRef} : .table ref ∈ walk.seen.parts ↔ ref ∈ entries.map Prod.fst := by
  rw [h.seen.mem_iff, List.mem_append]
  simp

lemma perm_ids (hcomplete : IsComplete s walk) : (plots.map Plot.id).Perm s.functions.ids := by
  refine (List.perm_ext_iff_of_nodup h.nodup_ids s.functions.nodup).mpr fun id => ⟨?_, ?_⟩
  · intro hid
    obtain ⟨p, hp, rfl⟩ := List.mem_map.mp hid
    obtain ⟨f, hf, -⟩ := h.declares p hp
    exact Registry.get?_isSome_iff.mp (by rw [hf]; rfl)
  · intro hid
    obtain ⟨f, hf, rfl⟩ := List.mem_map.mp hid
    exact h.function_mem_iff.mp (hcomplete.functions f hf)

lemma perm_allTables (hcomplete : IsComplete s walk) : entries.Perm s.allTables := by
  rw [List.perm_ext_iff_of_nodup h.nodup_refs.of_map s.nodup_allTables.of_map]
  intro entry
  constructor
  · exact fun hentry => Script.mem_allTables.mpr (h.held entry hentry)
  · intro hentry
    obtain ⟨other, hother, href⟩ := List.mem_map.mp (h.table_mem_iff.mp (hcomplete.tables entry hentry))
    have hheld := h.held other hother
    rw [href, Script.mem_allTables.mp hentry] at hheld
    rwa [Prod.ext href.symm (Option.some.inj hheld)]

lemma contains_inlined {p : Plot} (hp : p ∈ plots) :
    walk.findings.inlined.contains p.id = p.isInline := by
  rw [Bool.eq_iff_iff, List.contains_iff_mem, h.inlined.mem_iff, List.mem_map]
  constructor
  · rintro ⟨q, hq, hid⟩
    obtain ⟨hq, hinline⟩ := List.mem_filter.mp hq
    rwa [← List.inj_on_of_nodup_map h.nodup_ids hq hp hid]
  · exact fun hinline => ⟨p, List.mem_filter.mpr ⟨hp, hinline⟩, rfl⟩

lemma fill_standsAt {f : Function} {p : Plot} (hf : f ∈ s.functions.records) (hp : p ∈ plots)
    (hid : f.id = p.id) : (f.fill walk.findings.inlined walk.findings.bodies).StandsAt p := by
  have hn : (walk.findings.bodies.map Prod.fst).Nodup := by
    rw [(h.bodies.map Prod.fst).nodup_iff, List.map_map]
    exact h.nodup_ids
  have hmem : (f.id, p.nesting.code) ∈ walk.findings.bodies := by
    rw [h.bodies.mem_iff, hid]
    exact List.mem_map.mpr ⟨p, hp, rfl⟩
  obtain ⟨g, hg, hstart, hstop⟩ := h.declares p hp
  obtain rfl : f = g := Registry.eq_of_get? hf hid hg
  rw [Function.fill_of_mem hn hmem, hid, h.contains_inlined hp]
  exact ⟨rfl, hstart, hstop, rfl, rfl⟩

lemma functions_stand (hcomplete : IsComplete s walk) :
    ∃ places, places.Perm (plots ++ others) ∧
      List.Forall₂ Function.StandsAt (walk.findings.functions s) places := by
  have hkeys : List.Forall₂ (fun id p => p.id = id) (plots.map Plot.id) plots :=
    List.forall₂_map_left_iff.mpr (List.forall₂_same.mpr fun _ _ => rfl)
  obtain ⟨places, hplaces, hperm⟩ := List.perm_comp_forall₂ (h.perm_ids hcomplete).symm hkeys
  have hstand : List.Forall₂ Function.StandsAt
      (s.functions.records.map (Function.fill walk.findings.inlined walk.findings.bodies)) places := by
    rw [List.forall₂_map_left_iff, List.forall₂_iff_zip]
    have hids := List.forall₂_iff_zip.mp (List.forall₂_map_left_iff.mp hplaces)
    refine ⟨hids.1, fun {f p} hfp => ?_⟩
    obtain ⟨hf, hp⟩ := List.of_mem_zip hfp
    exact h.fill_standsAt hf (hperm.mem_iff.mp hp) (hids.2 hfp).symm
  exact ⟨places ++ others, hperm.append_right others, List.rel_append hstand h.gaps⟩

lemma exists_host (hcomplete : IsComplete s walk) {f : Function}
    (hf : f ∈ walk.findings.functions s) (hinline : f.isInline = true) :
    ∃ g ∈ walk.findings.functions s, Within f.span g.span ∧ ∃ i ∈ g.code, i.spawned? = some f.id ∧
      g.span.1 + i.size ≤ f.span.1 ∧ s.Finds bytes base (i, f.span.1) := by
  obtain ⟨places, hperm, hstand⟩ := h.functions_stand hcomplete
  obtain ⟨p, hp, hfp⟩ := forall₂_exists_right hstand hf
  rw [hperm.mem_iff] at hp
  rw [hfp.isInline] at hinline
  obtain ⟨q, hq, hstart, hstop, i, hi, hspawn⟩ := h.covers.hosts p hp hinline
  obtain ⟨g, hg, hgq⟩ := forall₂_exists_left hstand (hperm.mem_iff.mpr hq)
  refine ⟨g, hg, ?_, i, ?_, ?_, ?_, ?_⟩
  · rw [hfp.span_eq, hgq.span_eq]
    exact ⟨hstart, hstop⟩
  · rw [hgq.code]
    exact (List.of_mem_zip hi).1
  · rw [hspawn, hfp.id]
  · rw [hfp.span_eq, hgq.span_eq]
    exact Nesting.add_size_le_of_mem_instructions hi
  · rw [hfp.span_eq]
    exact h.finds q hq _ hi

lemma pairwise_fits (hcomplete : IsComplete s walk) :
    (walk.findings.functions s).Pairwise Function.Fits := by
  obtain ⟨places, hperm, hstand⟩ := h.functions_stand hcomplete
  have hfits : places.Pairwise Plot.Fits :=
    (hperm.pairwise_iff fun h => Plot.Fits.symm h).mpr h.covers.fits
  exact pairwise_of_forall₂ hstand hfits fun hf hg h => hf.fits hg h

lemma pairwise_apart (hcomplete : IsComplete s walk) :
    s.allTables.Pairwise fun a b => Apart a.2.span b.2.span := by
  have hentries := List.pairwise_map.mp h.covers.tables_apart
  refine ((h.perm_allTables hcomplete).pairwise_iff fun h => Apart.symm h).mp ?_
  exact hentries.imp fun h => .inl h

lemma table_apart (hcomplete : IsComplete s walk) {entry : TableRef × Table} {f : Function}
    (hentry : entry ∈ s.allTables) (hf : f ∈ walk.findings.functions s) :
    Apart entry.2.span f.span := by
  obtain ⟨places, hperm, hstand⟩ := h.functions_stand hcomplete
  obtain ⟨p, hp, hfp⟩ := forall₂_exists_right hstand hf
  have htable : entry.2 ∈ entries.map Prod.snd :=
    List.mem_map_of_mem ((h.perm_allTables hcomplete).mem_iff.mpr hentry)
  rw [hfp.span_eq]
  exact (h.covers.code_apart entry.2 htable p (hperm.mem_iff.mp hp)).symm

lemma sum_eq (hcomplete : IsComplete s walk) :
    (walk.findings.bodies.map fun entry => codeSize entry.2).sum +
      (walk.findings.gaps.map fun entry => codeSize entry.2.code).sum +
      (s.allTables.map fun entry => entry.2.payloadSize).sum = reach := by
  have hbodies := ((h.bodies.map fun entry => codeSize entry.2).sum_nat)
  have htables := ((h.perm_allTables hcomplete).map fun entry => entry.2.payloadSize).sum_nat
  have hgaps : walk.findings.gaps.map (fun entry => codeSize entry.2.code) =
      others.map fun p => codeSize p.nesting.code := by
    rw [← List.forall₂_eq_eq_eq, List.forall₂_map_left_iff, List.forall₂_map_right_iff]
    exact (List.forall₂_map_left_iff.mp h.gaps).imp fun _ _ hfp => congrArg codeSize hfp.code
  have htotal := h.covers.total
  rw [List.map_append, List.sum_append, List.map_map] at htotal
  rw [List.map_map] at hbodies
  rw [hbodies, hgaps, ← htables]
  exact htotal

/-- Where all parts have been read and words fill the rest, all bytes are accounted for. -/
theorem accounts (hcomplete : IsComplete s walk) {trailing : List UInt32} {stop : Nat}
    (hstop : base + reach + 4 * trailing.length = stop) :
    ({ walk.findings with trailing } : Findings).Accounts s bytes base stop where
  bodies := by
    have := (h.bodies.map Prod.fst).trans (by rw [List.map_map])
    exact this.trans (h.perm_ids hcomplete)
  tables := by
    have := (h.perm_allTables hcomplete).map Prod.fst
    rwa [← h.tables] at this
  laminar := (h.pairwise_fits hcomplete).imp fun hfits => by
    rcases hfits with h | ⟨-, -, h⟩ | ⟨-, -, h⟩
    · exact .inl h
    · exact .inr (.inr h)
    · exact .inr (.inl h)
  inline_iff f hf hbytes := by
    constructor
    · intro hinline
      obtain ⟨g, hg, hwithin, i, -, -, hle, -⟩ := h.exists_host hcomplete hf hinline
      have := i.size_pos
      refine ⟨g, hg, ?_, hwithin⟩
      rintro rfl
      omega
    · rintro ⟨g, hg, hne, hwithin⟩
      have hfits := (h.pairwise_fits hcomplete).forall hf hg hne.symm
      exact hfits.isInline_of_within hbytes hwithin
  starts _ hf hinline := h.exists_host hcomplete hf hinline
  payloads := h.pairwise_apart hcomplete
  apart _ hentry _ hf := h.table_apart hcomplete hentry hf
  total := by
    have := h.sum_eq hcomplete
    dsimp only
    omega

end Walking.Covered

namespace Read

lemma wordsUntil_outcome (stop : Nat) (r : Reader) :
    Outcome (wordsUntil stop r)
      (fun ws r' => r.offset + 4 * ws.length = stop ∧ r' = { r with offset := stop })
      fun _ => True := by
  unfold wordsUntil
  rw [bind_of_ok (rfl : offset r = .ok r.offset r), bind_of_ok (rfl : length r = .ok r.bytes.size r)]
  split
  · trivial
  split
  · trivial
  refine (times_consumes word_consumes _ r).mono (fun ws r' hws => ?_) fun _ h => h
  obtain ⟨count, ⟨hlength, hcount⟩, hr'⟩ := hws
  have hr' : r' = r.skip count := hr'
  have hend : r.offset + count = stop := by omega
  refine ⟨by omega, ?_⟩
  rw [hr', ← hend]
  rfl

/-- A code region that can be read is accounted for up to the end of the container. -/
theorem region_accounts (s : Script) (r : Reader) :
    Outcome (region s r)
      (fun found r' => r' = ⟨r.bytes, r.bytes.size⟩ ∧ found.Accounts s r.bytes r.offset r.bytes.size)
      fun _ => True := by
  refine region_outcome ?_
  unfold Walking.region
  refine (Walking.parts_outcome (fun _ h => h) (Walking.Covered.start s r) rfl rfl _).bind
    fun _ walk hwalk => ?_
  obtain ⟨hall, plots, others, entries, reach, hcovered⟩ := hwalk
  have hcomplete : Walking.Covered.IsComplete s walk := by
    refine ⟨fun f hf => hall (.ofFunction f) ?_, fun entry hentry => hall (.ofTable entry) ?_⟩
    · exact Script.mem_schedule_iff.mpr (.inl ⟨f, hf, rfl⟩)
    · exact Script.mem_schedule_iff.mpr (.inr ⟨entry, hentry, rfl⟩)
  have htrailing : Outcome (Walking.ofRead (do Read.wordsUntil (← Read.length)) walk)
      (fun ws last => walk.reader.offset + 4 * ws.length = walk.reader.bytes.size ∧
        last = { walk with reader := { walk.reader with offset := walk.reader.bytes.size } })
      fun _ => True := by
    have hwords := wordsUntil_outcome walk.reader.bytes.size walk.reader
    unfold Walking.ofRead
    rw [bind_of_ok (rfl : length walk.reader = .ok walk.reader.bytes.size walk.reader)]
    cases hrun : wordsUntil walk.reader.bytes.size walk.reader with
    | ok ws r' =>
      obtain ⟨hlength, rfl⟩ := hwords.of_ok hrun
      exact ⟨hlength, rfl⟩
    | error e r' => trivial
  refine htrailing.bind fun ws last hlast => ?_
  obtain ⟨hlength, rfl⟩ := hlast
  have hreader : walk.reader = ⟨r.bytes, r.offset + reach⟩ := hcovered.reader
  rw [hreader] at hlength ⊢
  exact ⟨rfl, hcovered.accounts hcomplete hlength⟩

end Read

namespace Findings

variable {found : Findings} {s : Script} {bytes : Array UInt8} {base stop : Nat}

namespace Accounts

variable (h : found.Accounts s bytes base stop)
include h

lemma apply_eq :
    found.apply s = { found.gaps.foldl addGap (found.filled s) with
      padding := { (found.gaps.foldl addGap (found.filled s)).padding with code := found.trailing } } :=
  apply_of_nodup (h.bodies.nodup_iff.mpr s.functions.nodup) (h.tables.nodup_iff.mpr s.nodup_allTables)

lemma functions_apply :
    (found.apply s).functions = (found.gaps.foldl addGap (found.filled s)).functions := by
  rw [h.apply_eq]

lemma mem_functions {f : Function} (hf : f ∈ (found.apply s).functions.records) :
    ∃ g ∈ found.functions s, f = { g with tables := f.tables } := by
  rw [h.functions_apply] at hf
  rcases mem_of_mem_addGaps hf with hf | hf
  · obtain ⟨g, hg, rfl⟩ := List.mem_map.mp hf
    exact ⟨g, List.mem_append_left _ hg, rfl⟩
  · exact ⟨f, List.mem_append_right _ hf, rfl⟩

lemma perm_ids (hids : ((found.functions s).map Function.id).Nodup) :
    (found.apply s).functions.ids.Perm ((found.functions s).map Function.id) := by
  have hall : (found.functions s).map Function.id =
      (found.filled s).functions.ids ++ found.gaps.map fun gap => gap.2.id := by
    have hfilled : (found.filled s).functions.ids =
        (s.functions.records.map (Function.fill found.inlined found.bodies)).map Function.id := by
      rw [filled, Script.mapTables, Registry.ids_map]
      rfl
    rw [functions, List.map_append, hfilled]
    exact congrArg _ (List.map_map ..)
  rw [hall] at hids ⊢
  rw [h.functions_apply]
  exact ids_addGaps hids

end Accounts

end Findings

/-- What a container that is accepted consists of: the sections before the code region declare
functions and tables, and what was found in as many words as the count says accounts for them. -/
structure Script.Accounted (bytes : Array UInt8) (s declared : Script) (base : Nat) (count : UInt32)
    (found : Findings) : Prop where
  sections : Read.declarations ⟨bytes, magic.length⟩ = .ok declared ⟨bytes, base⟩
  counted : Read.word ⟨bytes, base⟩ = .ok count ⟨bytes, base + 4⟩
  region : Read.region declared ⟨bytes, base + 4⟩ = .ok found ⟨bytes, bytes.size⟩
  accounts : found.Accounts declared bytes (base + 4) (base + 4 + 4 * count.toNat)
  result : s = found.apply declared

lemma Read.code_outcome (options : Options) {declared : Script} {bytes : Array UInt8} {base : Nat}
    (hsections : declarations ⟨bytes, magic.length⟩ = .ok declared ⟨bytes, base⟩) :
    Outcome (code options declared ⟨bytes, base⟩)
      (fun s _ => ∃ count found, s.Accounted bytes declared base count found) fun _ => True := by
  cases hword : word ⟨bytes, base⟩ with
  | error e r =>
    unfold code
    rw [bind_of_ok (rfl : offset ⟨bytes, base⟩ = .ok base ⟨bytes, base⟩), bind_of_error hword]
    trivial
  | ok count r =>
    obtain rfl : r = ⟨bytes, base + 4⟩ := word_of_ok hword
    rw [code_of_word hword]
    split
    case isTrue => trivial
    case isFalse hcount =>
      have hcount : count.toNat * 4 = bytes.size - (base + 4) := not_not.mp hcount
      cases hregion : region declared ⟨bytes, base + 4⟩ with
      | error e r =>
        rw [bind_of_error hregion]
        trivial
      | ok found r =>
        obtain ⟨rfl, haccounts⟩ := (region_accounts declared _).of_ok hregion
        have htotal : base + 4 + _ = bytes.size := haccounts.total
        have hstop : bytes.size = base + 4 + 4 * count.toNat := by omega
        have haccounted : (found.apply declared).Accounted bytes declared base count found :=
          ⟨hsections, hword, hregion, hstop ▸ haccounts, rfl⟩
        rw [bind_of_ok hregion]
        dsimp only
        cases hlabels : (found.apply declared).functions.records.forM (checkLabels options)
            ⟨bytes, bytes.size⟩ with
        | error e r =>
          rw [bind_of_error hlabels]
          trivial
        | ok _ r =>
          rw [bind_of_ok hlabels]
          exact ⟨count, found, haccounted⟩

lemma Script.exists_accounted {options : Options} {bytes : Array UInt8} {s : Script}
    (h : parse options bytes = .ok s) :
    ∃ declared base count found, s.Accounted bytes declared base count found := by
  have hread : ∃ r, Read.script options ⟨bytes, magic.length⟩ = .ok s r := by
    unfold parse at h
    split at h
    · cases h
    · cases hrun : Read.script options ⟨bytes, magic.length⟩ with
      | ok s' r =>
        rw [hrun] at h
        exact ⟨r, by rw [Except.ok.inj h]⟩
      | error e r =>
        rw [hrun] at h
        cases h
  obtain ⟨r, hread⟩ := hread
  rw [Read.script_eq] at hread
  cases hsections : Read.declarations ⟨bytes, magic.length⟩ with
  | error e r' =>
    rw [bind_of_error hsections] at hread
    cases hread
  | ok declared r' =>
    rw [bind_of_ok hsections] at hread
    obtain ⟨bytes', base⟩ := r'
    obtain rfl : bytes' = bytes := Composed.declarations.bytes_eq hsections
    obtain ⟨count, found, hall⟩ := (Read.code_outcome options hsections).of_ok hread
    exact ⟨declared, base, count, found, hall⟩

/-- Every container that is accepted accounts for all bytes of its code region. The script that
results holds the functions that were found, all of them where their ids do not clash. -/
theorem Script.parse_accounts {options : Options} {bytes : Array UInt8} {s : Script}
    (h : parse options bytes = .ok s) :
    ∃ declared base count found, s.Accounted bytes declared base count found ∧
      (∀ f ∈ s.functions.records, ∃ g ∈ found.functions declared, f = { g with tables := f.tables }) ∧
      (((found.functions declared).map Function.id).Nodup →
        s.functions.ids.Perm ((found.functions declared).map Function.id)) := by
  obtain ⟨declared, base, count, found, hall⟩ := exists_accounted h
  refine ⟨declared, base, count, found, hall, fun f hf => ?_, fun hids => ?_⟩
  · rw [hall.result] at hf
    exact hall.accounts.mem_functions hf
  · rw [hall.result]
    exact hall.accounts.perm_ids hids

/-- A container with code that belongs to no declared function, a function that starts another one, a
table of three bytes and a word at the end. -/
def lodge : Array UInt8 :=
  (magic ++ bytesOfWords [11, 11, 34, 35, 41, 42, 43, 44, 0, 2,
    0, 1, 0, 0, 1, 7, 0, 0, 0, 0, 0, 0, 2, 0, 0, 5, 6, 0, 0, 0, 0, 0, 0, 1, 0, 9, 3, 3, 7, 0, 0, 0,
    11, 2, 6, 2, 8, 17, 9, 9, 101, 197121, 102, 7]).toArray

lemma lodge_parses : ∃ s, Script.parse .lenient lodge = .ok s ∧
    (s.functions.records.map fun f => (f.id, f.isInline)) = [(1, false), (3, false), (2, true)] ∧
    s.regionSize = 40 := by
  have hopens : Opens lodge 176 := by decide +kernel
  have hlook : (scanned? (declaredIn lodge) lodge 176).map (fun s =>
      (s.functions.records.map fun f => (f.id, f.isInline), s.regionSize)) =
    some ([(1, false), (3, false), (2, true)], 40) := by decide +kernel
  obtain ⟨s, hparse, hs⟩ := hopens.exists_parse hlook
  exact ⟨s, hparse, Prod.mk.inj hs⟩

theorem Script.lodge_accounts :
    ∃ s, parse .lenient lodge = .ok s ∧
      (s.functions.records.map fun f => (f.id, f.isInline)) = [(1, false), (3, false), (2, true)] ∧
      ∃ declared base count found, s.Accounted lodge declared base count found := by
  obtain ⟨s, hparse, hfunctions, -⟩ := lodge_parses
  obtain ⟨declared, base, count, found, hall, -⟩ := parse_accounts hparse
  exact ⟨s, hparse, hfunctions, declared, base, count, found, hall⟩

end ScriptContainer
