import ScriptContainer.Proofs.DeclaredReferences
import ScriptContainer.Proofs.FreeIds
import ScriptContainer.Proofs.RoundTrip

/-!
# Code outside declared functions comes back

Functions without declaration that own nothing and that nothing refers to are written as roots of the
layout. A reader does not know them. As long as no other function stands inside one of them, it finds
their code in the order in which it stands: in functions without declaration, one for each row of code
between declared functions, and in the filler words where neither a declared function nor a table
follows.
-/

namespace ScriptContainer

namespace Tiles

variable {start stop : Nat} {spans : List (Nat × Nat)}

lemma exists_start (h : Tiles start spans stop) (hne : spans ≠ []) : ∃ span ∈ spans, span.1 = start := by
  cases spans with
  | nil => exact absurd rfl hne
  | cons span spans => exact ⟨span, List.mem_cons_self, h.1⟩

lemma exists_stop (h : Tiles start spans stop) (hne : spans ≠ []) : ∃ span ∈ spans, span.2 = stop := by
  induction spans generalizing start with
  | nil => exact absurd rfl hne
  | cons span spans ih =>
    obtain ⟨-, -, h⟩ := h
    cases spans with
    | nil => exact ⟨span, List.mem_cons_self, h⟩
    | cons next spans =>
      obtain ⟨last, hlast, hstop⟩ := ih h (List.cons_ne_nil _ _)
      exact ⟨last, List.mem_cons_of_mem _ hlast, hstop⟩

lemma filter_map {α : Type} {span : α → Nat × Nat} {p : α → Bool} {xs : List α}
    (h : Tiles start (xs.map span) stop) (hp : ∀ x ∈ xs, p x = false → (span x).1 = (span x).2) :
    Tiles start ((xs.filter p).map span) stop := by
  induction xs generalizing start with
  | nil => exact h
  | cons x xs ih =>
    obtain ⟨hx, hxs⟩ := List.forall_mem_cons.mp hp
    obtain ⟨hstart, hle, h⟩ := h
    cases hpx : p x with
    | true =>
      rw [List.filter_cons_of_pos hpx]
      exact ⟨hstart, hle, ih h hxs⟩
    | false =>
      rw [List.filter_cons_of_neg (by rw [hpx]; exact Bool.false_ne_true), ← hstart, hx hpx]
      exact ih h hxs

end Tiles

/-- The function is made of the code of these functions, which follow each other without gap. -/
structure Function.Gathers (g : Function) (fs : List Function) : Prop where
  code : g.code = fs.flatMap Function.code
  tiles : Tiles g.codeStart.toNat (fs.map Function.span) g.codeEnd.toNat

namespace Script

lemma length_undeclared_le (s : Script) : s.undeclared.length ≤ UInt32.size := by
  have hn : (s.undeclared.map fun f => f.id.toNat).Nodup := by
    refine List.Nodup.map_on (fun f hf g hg he => ?_) (s.functions.nodup_records.filter _)
    exact Registry.eq_of_get? (List.mem_of_mem_filter hf) (UInt32.toNat_inj.mp he)
      (s.functions.get?_of_mem (List.mem_of_mem_filter hg))
  have hlt : s.undeclared.map (fun f => f.id.toNat) ⊆ List.range UInt32.size := by
    intro n hmem
    obtain ⟨f, -, rfl⟩ := List.mem_map.mp hmem
    exact List.mem_range.mpr f.id.toNat_lt
  have hlength := (List.subperm_of_subset hn hlt).length_le
  rwa [List.length_map, List.length_range] at hlength

/-- The functions without declaration that have code. -/
def loose (s : Script) : List Function := s.undeclared.filter fun f => !f.code.isEmpty

/-- The functions without declaration that have code are found in the order in which they stand: those
of each run in one function of the parsed script, those of the last run in the filler words. -/
structure Gathered (s parsed : Script) (runs : List (List Function)) (last : List Function) : Prop where
  all : (runs.flatten ++ last).Perm s.loose
  ordered : (runs.flatten ++ last).Pairwise fun f g => f.span.2 ≤ g.span.1
  gaps : ∃ gaps : List Function, gaps.Perm parsed.undeclared ∧ List.Forall₂ Function.Gathers gaps runs
  trailing : ∃ ws, (last.flatMap Function.code).mapM (Instruction.encode s) = .ok ws ∧
    parsed.padding.code = ws.flatten ++ s.padding.code
  /-- Nothing declared follows the last run. -/
  behind : last ≠ [] → s.allTables = [] ∧ ∀ f ∈ s.declared, ∀ g ∈ last, f.span.2 ≤ g.span.1

/-- The declared part of the script is found as it is, and all other code in its order. -/
structure CarriesOver (s parsed : Script) : Prop where
  imports : parsed.imports = s.imports
  declared : parsed.declared = s.declared
  vars : parsed.vars.records.Perm s.vars.records
  tables : parsed.tables = s.tables
  front : parsed.padding.front = s.padding.front
  padding : parsed.padding.tables = s.padding.tables
  loose : ∃ runs last, s.Gathered parsed runs last

/-- Under these chains code stands inside declared functions only. -/
def NestsInDeclared (s : Script) (chains : Registry Chain) : Prop :=
  ∀ chain ∈ chains.records, ∀ f ∈ s.functions.records, f.id ∈ chain.scopes → f.id ≠ chain.function →
    f.isDeclared = true

end Script

section Inside

variable {s : Script} {body? : RecordId → Option (Body .bound)} {seen : RecordId → Prop}
  {scopes : List RecordId}

lemma Nesting.isSome_of_keeps {n : Nesting} (hproper : n.Proper body? seen)
    (hself : ∀ i ∈ n.code, s.Keeps scopes i) (hinside : s.KeepsUnder body? (n.chains scopes)) :
    ∀ id ∈ n.ids, (s.functions.get? id).isSome := by
  induction n generalizing seen scopes with
  | done => exact fun _ hid => absurd hid List.not_mem_nil
  | step i rest ih =>
    rw [code, List.forall_mem_cons] at hself
    exact ih hproper.2 hself.2 hinside
  | host i id inner rest ihi ihr =>
    obtain ⟨hspawn, -, hbody, hinner, hrest⟩ := hproper
    rw [code, List.forall_mem_cons] at hself
    rw [chains, Script.KeepsUnder, List.forall_mem_cons, List.forall_mem_append] at hinside
    refine List.forall_mem_cons.mpr
      ⟨hself.1.isSome_of_spawned? hspawn, List.forall_mem_append.mpr ⟨?_, ?_⟩⟩
    · exact ihi hinner (hinside.1 inner.code hbody) hinside.2.1
    · exact ihr hrest hself.2 hinside.2.2

lemma isSome_of_keeps {tail schedule : List Scheduled} {start : Nat} {roots : List Root}
    (h : Follows body? tail seen start schedule roots)
    (hkeeps : s.KeepsUnder body? (forestChains roots)) :
    ∀ root ∈ roots, ∀ id ∈ root.nesting.ids, (s.functions.get? id).isSome := by
  induction h with
  | done => exact fun _ hroot => absurd hroot List.not_mem_nil
  | skip _ _ ih => exact ih hkeeps
  | @root seen start root rest roots _ hbody hproper _ ih =>
    rw [forestChains, List.flatMap_cons, Root.chains, Script.KeepsUnder, List.forall_mem_append,
      List.forall_mem_cons] at hkeeps
    refine List.forall_mem_cons.mpr ⟨?_, ih hkeeps.2⟩
    exact Nesting.isSome_of_keeps hproper (hkeeps.1.1 _ hbody) hkeeps.1.2

lemma Nesting.mem_scopes_of_mem_chains {n : Nesting} {chain : Chain} (h : chain ∈ n.chains scopes) :
    ∀ id ∈ scopes, id ∈ chain.scopes := by
  induction n generalizing scopes with
  | done => cases h
  | step i rest ih => exact ih h
  | host i id inner rest ihi ihr =>
    rw [chains, List.mem_cons, List.mem_append] at h
    rcases h with rfl | h | h
    · exact fun id hid => List.mem_append_left _ hid
    · exact fun id hid => ihi h id (List.mem_append_left _ hid)
    · exact ihr h

/-- A root without declaration has no other function inside, if none of its chains leads through it. -/
lemma Script.NestsInDeclared.ids_eq_nil {chains : Registry Chain} (h : s.NestsInDeclared chains)
    {root : Root} (hchains : ∀ chain ∈ root.chains, chain ∈ chains.records) (hn : root.ids.Nodup)
    {f : Function} (hf : f ∈ s.functions.records) (hid : f.id = root.id)
    (hundeclared : f.isDeclared = false) : root.nesting.ids = [] := by
  refine List.eq_nil_iff_forall_not_mem.mpr fun id hinside => ?_
  obtain ⟨chain, hchain, rfl⟩ : ∃ chain ∈ root.nesting.chains [root.id], chain.function = id := by
    rwa [← root.nesting.map_function_chains [root.id], List.mem_map] at hinside
  have hmem := hchains chain (List.mem_cons_of_mem _ hchain)
  have hscopes : f.id ∈ chain.scopes := by
    rw [hid]
    exact Nesting.mem_scopes_of_mem_chains hchain _ List.mem_cons_self
  have hne : f.id ≠ chain.function := by
    rw [hid]
    intro he
    exact (List.nodup_cons.mp hn).1 (he ▸ hinside)
  rw [h chain hmem f hf hscopes hne] at hundeclared
  cases hundeclared

lemma exists_known_root {known : RecordId → Bool} {roots : List Root} {start : Nat}
    (hflat : ∀ root ∈ roots, known root.id = false → root.nesting.ids = []) {p : Plot}
    (hp : p ∈ forestPlots start roots) (hknown : known p.id = true) :
    ∃ q ∈ rootPlots start roots, known q.id = true ∧ p.stop ≤ q.stop := by
  induction roots generalizing start with
  | nil => cases hp
  | cons root roots ih =>
    obtain ⟨hroot, hroots⟩ := List.forall_mem_cons.mp hflat
    rw [forestPlots, Root.plots, List.mem_append, List.mem_cons] at hp
    rcases hp with (rfl | hp) | hp
    · exact ⟨_, List.mem_cons_self, hknown, le_rfl⟩
    · cases hself : known root.id with
      | true => exact ⟨_, List.mem_cons_self, hself, (Nesting.start_le_of_mem_plots hp).2⟩
      | false =>
        have hid := List.mem_map_of_mem (f := Plot.id) hp
        rw [Nesting.map_id_plots, hroot hself] at hid
        cases hid
    · obtain ⟨q, hq, hqknown, hle⟩ := ih hroots hp
      exact ⟨q, List.mem_cons_of_mem _ hq, hqknown, hle⟩

end Inside

namespace Script

def functionAt (t : Script) (p : Plot) : Function := (t.functions.get? p.id).getD (.new p.id)

/-- The functions of a row that have code. -/
def functionsIn (t : Script) (row : Row) : List Function :=
  (row.plots.map t.functionAt).filter fun f => !f.code.isEmpty

namespace Recoverable

variable {t : Script} {roots : List Root} {stop : Nat} (h : t.Recoverable roots stop)
include h

lemma functionAt_spec {p : Plot} (hp : p ∈ forestPlots 0 roots) :
    t.functionAt p ∈ t.functions.records ∧ (t.functionAt p).id = p.id ∧
      (t.functionAt p).span = p.span ∧ (t.functionAt p).code = p.nesting.code := by
  obtain ⟨f, hf, hstart, hstop, -, hcode⟩ := h.stands.holds p hp
  rw [functionAt, hf]
  exact ⟨Registry.mem_of_get? hf, Registry.id_of_get? hf, Prod.ext hstart hstop, hcode⟩

lemma exists_rootPlot {f : Function} (hf : f ∈ t.functions.records)
    (hundeclared : f.isDeclared = false) :
    ∃ p ∈ rootPlots 0 roots, p.id = f.id := by
  obtain ⟨p, hp, hid, -⟩ := h.stands.exists_plot hf
  refine ⟨p, ?_, hid⟩
  rw [← filter_not_isInline_forestPlots]
  refine List.mem_filter.mpr ⟨hp, ?_⟩
  by_contra hinline
  rw [Bool.not_eq_true', Bool.not_eq_false] at hinline
  have hinside : f.id ∈ roots.flatMap fun root => root.nesting.ids := by
    rw [← map_id_filter_isInline 0, ← hid]
    exact List.mem_map_of_mem (List.mem_filter.mpr ⟨hp, hinline⟩)
  obtain ⟨root, hroot, hinside⟩ := List.mem_flatMap.mp hinside
  have hheld : t.declares f.id = true := isSome_of_keeps h.stands.follows h.code root hroot _ hinside
  rw [declares_iff hf, hundeclared] at hheld
  cases hheld

lemma perm_undeclared :
    (((rootPlots 0 roots).filter fun p => !t.declares p.id).map t.functionAt).Perm t.undeclared := by
  have hmem (p : Plot) (hp : p ∈ (rootPlots 0 roots).filter fun p => !t.declares p.id) :=
    h.functionAt_spec (mem_forestPlots_of_mem_rootPlots (List.mem_of_mem_filter hp))
  refine (List.perm_ext_iff_of_nodup ?_ (t.functions.nodup_records.filter _)).mpr fun f => ?_
  · have hids : ((forestPlots 0 roots).map Plot.id).Nodup := by
      rw [map_id_forestPlots]
      exact h.nodup_forestIds
    rw [← filter_not_isInline_forestPlots]
    refine List.Nodup.of_map Function.id ?_
    rw [List.map_map, List.map_congr_left fun p hp => ?_]
    · exact hids.sublist ((List.filter_sublist.trans List.filter_sublist).map Plot.id)
    · rw [filter_not_isInline_forestPlots] at hp
      exact (hmem p hp).2.1
  · rw [List.mem_filter, List.mem_map]
    constructor
    · rintro ⟨p, hp, rfl⟩
      obtain ⟨hf, hid, -⟩ := hmem p hp
      refine ⟨hf, ?_⟩
      rw [← declares_iff hf, hid]
      exact (List.mem_filter.mp hp).2
    · rintro ⟨hf, hundeclared⟩
      rw [Bool.not_eq_true'] at hundeclared
      obtain ⟨p, hp, hid⟩ := h.exists_rootPlot hf hundeclared
      have hp' : p ∈ (rootPlots 0 roots).filter fun p => !t.declares p.id := by
        refine List.mem_filter.mpr ⟨hp, ?_⟩
        rw [hid, declares_iff hf, hundeclared]
        rfl
      refine ⟨p, hp', ?_⟩
      obtain ⟨hf', hid', -⟩ := hmem p hp'
      exact Registry.eq_of_get? hf' (hid'.trans hid) (t.functions.get?_of_mem hf)

section Row

variable {row : Row} (hrow : row ∈ (t.looseRows roots).1 ∨ row = (t.looseRows roots).2)
include hrow

lemma code_functionsIn : (t.functionsIn row).flatMap Function.code = row.nesting.code := by
  have hcode : ∀ p ∈ row.plots, (t.functionAt p).code = p.nesting.code := fun p hp =>
    (h.functionAt_spec (mem_forestPlots_of_mem_rootPlots (mem_rootPlots_of_mem_row hrow hp).1)).2.2.2
  rw [row.code_nesting, functionsIn]
  generalize row.plots = plots at hcode
  induction plots with
  | nil => rfl
  | cons p plots ih =>
    obtain ⟨hp, hplots⟩ := List.forall_mem_cons.mp hcode
    rw [List.map_cons, List.flatMap_cons, ← ih hplots, ← hp]
    cases hempty : (t.functionAt p).code.isEmpty with
    | true =>
      rw [List.filter_cons_of_neg (by simp [hempty]), List.isEmpty_iff.mp hempty, List.nil_append]
    | false => rw [List.filter_cons_of_pos (by simp [hempty]), List.flatMap_cons]

lemma functionsIn_eq_nil_iff : t.functionsIn row = [] ↔ row.nesting.size = 0 := by
  constructor
  · intro hnone
    have hcode := h.code_functionsIn hrow
    rw [hnone] at hcode
    rw [Nesting.eq_done_of_code hcode.symm]
    rfl
  · intro hsize
    have hcode := h.code_functionsIn hrow
    rw [Nesting.eq_done_of_size hsize] at hcode
    refine List.eq_nil_iff_forall_not_mem.mpr fun f hf => ?_
    have hempty := List.flatMap_eq_nil_iff.mp hcode f hf
    have hnonempty := (List.mem_filter.mp hf).2
    rw [hempty] at hnonempty
    cases hnonempty

lemma function_gathers (hsize : row.nesting.size ≠ 0) (id : RecordId) :
    (row.function id).Gathers (t.functionsIn row) := by
  have hspec {p : Plot} (hp : p ∈ row.plots) :=
    h.functionAt_spec (mem_forestPlots_of_mem_rootPlots (mem_rootPlots_of_mem_row hrow hp).1)
  have hspans : (row.plots.map t.functionAt).map Function.span = row.plots.map Plot.span := by
    rw [List.map_map]
    exact List.map_congr_left fun p hp => (hspec hp).2.2.1
  have htiles := row.tiles
  rw [← hspans] at htiles
  have hne : (row.plots.map t.functionAt).map Function.span ≠ [] := by
    intro hnone
    rw [hspans, List.map_eq_nil_iff] at hnone
    have hcode := row.code_nesting
    rw [hnone] at hcode
    rw [Nesting.eq_done_of_code hcode] at hsize
    exact hsize rfl
  -- The row lies where the functions do, so that words can hold its bounds.
  have hstart : (row.function id).codeStart.toNat = row.start := by
    obtain ⟨span, hspan, he⟩ := htiles.exists_start hne
    obtain ⟨f, -, rfl⟩ := List.mem_map.mp hspan
    exact UInt32.toNat_ofNat_of_lt' (he ▸ f.codeStart.toNat_lt)
  have hstop : (row.function id).codeEnd.toNat = row.stop := by
    obtain ⟨span, hspan, he⟩ := htiles.exists_stop hne
    obtain ⟨f, -, rfl⟩ := List.mem_map.mp hspan
    exact UInt32.toNat_ofNat_of_lt' (he ▸ f.codeEnd.toNat_lt)
  refine ⟨(h.code_functionsIn hrow).symm, ?_⟩
  rw [hstart, hstop]
  refine htiles.filter_map fun f hf hempty => ?_
  obtain ⟨p, hp, rfl⟩ := List.mem_map.mp hf
  obtain ⟨-, -, hspan, hcode⟩ := hspec hp
  rw [Bool.not_eq_false', List.isEmpty_iff, hcode] at hempty
  rw [hspan, Plot.span, Plot.stop, Nesting.eq_done_of_code hempty]
  rfl

end Row

lemma flatten_functionsIn :
    (((t.looseRows roots).1.filter fun row => row.nesting.size != 0).map t.functionsIn).flatten ++
        t.functionsIn (t.looseRows roots).2 =
      (((rootPlots 0 roots).filter fun p => !t.declares p.id).map t.functionAt).filter
        fun f => !f.code.isEmpty := by
  have hall : ∀ row ∈ (t.looseRows roots).1, t.functionsIn row = [] ↔ row.nesting.size = 0 :=
    fun row hrow => h.functionsIn_eq_nil_iff (.inl hrow)
  rw [← t.plots_looseRows, List.map_append, List.filter_append]
  refine congrArg (· ++ _) ?_
  generalize (t.looseRows roots).1 = rows at hall
  induction rows with
  | nil => rfl
  | cons row rows ih =>
    obtain ⟨hrow, hrows⟩ := List.forall_mem_cons.mp hall
    rw [List.flatMap_cons, List.map_append, List.filter_append, ← ih hrows]
    by_cases hsize : row.nesting.size = 0
    · rw [List.filter_cons_of_neg (by simp [hsize])]
      exact (List.nil_append _).symm.trans (congrArg (· ++ _) (hrow.mpr hsize).symm)
    · rw [List.filter_cons_of_pos (by simp [hsize]), List.map_cons, List.flatten_cons]
      rfl

/-- The code that the reader found in other places is that of the functions without declaration. -/
lemma gathered {found : Findings} (hcollects : found.Collects t roots) {parsed : Script}
    (hgaps : parsed.undeclared.Perm (found.gaps.map Prod.snd))
    (htrailing : parsed.padding.code = found.trailing) :
    ∃ runs last, t.Gathered parsed runs last := by
  refine ⟨((t.looseRows roots).1.filter fun row => row.nesting.size != 0).map t.functionsIn,
    t.functionsIn (t.looseRows roots).2, ?_, ?_, ⟨_, hgaps.symm, ?_⟩, ?_, ?_⟩
  · rw [h.flatten_functionsIn]
    exact h.perm_undeclared.filter _
  · rw [h.flatten_functionsIn]
    refine List.Pairwise.filter _ (List.pairwise_map.mpr ?_)
    have hroots := List.pairwise_map.mp (tiles_rootPlots 0 roots).pairwise
    refine ((List.Pairwise.and_mem.mp hroots).sublist List.filter_sublist).imp fun hpq => ?_
    obtain ⟨hp, hq, hle⟩ := hpq
    rw [(h.functionAt_spec (mem_forestPlots_of_mem_rootPlots hp)).2.2.1,
      (h.functionAt_spec (mem_forestPlots_of_mem_rootPlots hq)).2.2.1]
    exact hle
  · obtain ⟨id, hgaps⟩ := hcollects.gaps
    rw [List.forall₂_map_left_iff, List.forall₂_map_right_iff, List.forall₂_iff_zip]
    obtain ⟨hlength, hall⟩ := List.forall₂_iff_zip.mp hgaps.forall₂
    refine ⟨hlength, fun {gap row} hmem => ?_⟩
    obtain ⟨hrow, hsize⟩ := List.mem_filter.mp (List.of_mem_zip hmem).2
    rw [hall hmem]
    exact h.function_gathers (.inl hrow) (bne_iff_ne.mp hsize) _
  · rw [h.code_functionsIn (.inr rfl), htrailing]
    exact hcollects.trailing
  · intro hlast
    obtain ⟨htables, hrow⟩ : t.allTables = [] ∧
        (t.looseRows roots).2 = (rows t.declares 0 ⟨0, []⟩ roots).2 := by
      unfold looseRows endRow at hlast ⊢
      by_cases htables : t.allTables = []
      · exact ⟨htables, by simp only [if_pos htables]⟩
      · simp only [if_neg htables] at hlast
        exact absurd rfl hlast
    refine ⟨htables, fun f hf g hg => ?_⟩
    obtain ⟨hf, hdeclared⟩ := List.mem_filter.mp hf
    obtain ⟨p, hp, hid, -, hstop, -⟩ := h.stands.exists_plot hf
    have hknown : t.declares p.id = true := by rw [hid, declares_iff hf, hdeclared]
    have hflat : ∀ root ∈ roots, t.declares root.id = false → root.nesting.ids = [] :=
      fun root hroot hhidden =>
        h.flat root hroot (Option.isNone_iff_eq_none.mp (Option.isSome_eq_false_iff.mp hhidden))
    obtain ⟨q, hq, hqknown, hle⟩ := exists_known_root hflat hp hknown
    have hbehind := (stop_le_last_rows (Row.stop_nil 0)).2 q hq hqknown
    obtain ⟨p', hp', rfl⟩ := List.mem_map.mp (List.mem_of_mem_filter hg)
    have hstart := ((t.looseRows roots).2.tiles.bounds (List.mem_map_of_mem hp')).1
    rw [hrow] at hstart
    rw [(h.functionAt_spec
      (mem_forestPlots_of_mem_rootPlots (mem_rootPlots_of_mem_row (.inr rfl) hp').1)).2.2.1]
    exact hstop.le.trans (hle.trans (hbehind.trans hstart))

lemma length_gaps_le {found : Findings} (hcollects : found.Collects t roots) :
    found.gaps.length ≤ t.undeclared.length := by
  obtain ⟨id, hgaps⟩ := hcollects.gaps
  let runs := ((t.looseRows roots).1.filter fun row => row.nesting.size != 0).map t.functionsIn
  have hrun : ∀ run ∈ runs, 1 ≤ run.length := by
    intro run hrun
    obtain ⟨row, hrow, rfl⟩ := List.mem_map.mp hrun
    obtain ⟨hrow, hsize⟩ := List.mem_filter.mp hrow
    refine List.length_pos_iff.mpr fun hnone => ?_
    exact bne_iff_ne.mp hsize ((h.functionsIn_eq_nil_iff (.inl hrow)).mp hnone)
  calc found.gaps.length
      = runs.length := hgaps.forall₂.length_eq.trans (List.length_map _).symm
    _ ≤ (runs.map List.length).sum := by
        rw [← List.length_map List.length]
        exact List.length_le_sum_of_one_le _ (List.forall_mem_map.mpr hrun)
    _ = runs.flatten.length := List.length_flatten.symm
    _ ≤ (runs.flatten ++ t.functionsIn (t.looseRows roots).2).length := by
        rw [List.length_append]
        exact Nat.le_add_right _ _
    _ ≤ t.undeclared.length := by
        rw [h.flatten_functionsIn, ← h.perm_undeclared.length_eq]
        exact List.length_filter_le _ _

/-- Reading the script in place finds its declared part and all other code. -/
theorem carriesOver {found : Findings} (hcomplete : found.Complete t.shown)
    (hcollects : found.Collects t roots) (hleaves : t.LeavesIds) {vars : Registry Variable}
    (hvars : vars.records.Perm t.vars.records) :
    t.CarriesOver (found.apply (t.shown.bare vars)) := by
  have hdeclared : ∀ f ∈ t.shown.functions.records, f.isDeclared = true :=
    fun f hf => (mem_shown.mp hf).2
  have hundeclared : ∀ gap ∈ found.gaps, gap.2.isDeclared = false := by
    intro gap hgap
    obtain ⟨id, hgaps⟩ := hcollects.gaps
    obtain ⟨row, -, hfunction⟩ := forall₂_exists_right hgaps.forall₂ hgap
    rw [hfunction]
    rfl
  have hids : found.gaps.map (fun gap => gap.2.id) =
      (List.range found.gaps.length).map t.shown.gapId := by
    obtain ⟨id, hgaps⟩ := hcollects.gaps
    exact hgaps.ids_eq
  have hlength := h.length_gaps_le hcollects
  have hn : (t.shown.functions.ids ++ found.gaps.map fun gap => gap.2.id).Nodup := by
    rw [hids]
    refine nodup_ids_append_gapIds (fun id hid => ?_) (hlength.trans t.length_undeclared_le)
    obtain ⟨f, hf, rfl⟩ := List.mem_map.mp hid
    rw [records_shown] at hf
    exact (Nat.add_le_add_left hlength _).trans_lt (hleaves f hf)
  rw [hcomplete.apply_bare hdeclared]
  refine ⟨rfl, ?_, hvars, rfl, rfl, rfl, h.gathered hcollects ?_ rfl⟩
  · have hkept : (found.gaps.foldl Findings.addGap t.shown).declared = t.shown.declared := by
      rw [Findings.declared_addGaps hundeclared]
      refine List.filter_eq_self.mpr fun f hf => decide_eq_true fun hgap => ?_
      exact List.disjoint_of_nodup_append hn (List.mem_map_of_mem (List.mem_of_mem_filter hf)) hgap
    exact hkept.trans t.declared_shown
  · exact Findings.perm_undeclared_addGaps hdeclared hundeclared (List.nodup_append.mp hn).2.1

end Recoverable

section Built

variable {s t laid after : Script} {options : Options} {roots : List Root} {stop : Nat} {built : Built}

lemma LeavesIds.of_retains (h : s.LeavesIds) (hst : s.Retains t) : t.LeavesIds := by
  have hlength : t.undeclared.length = s.undeclared.length := by
    have hflags : t.functions.records.map Function.isDeclared =
        s.functions.records.map Function.isDeclared := by
      rw [← List.forall₂_eq_eq_eq, List.forall₂_map_left_iff, List.forall₂_map_right_iff]
      exact hst.functions.flip.imp fun _ _ hfg => hfg.isDeclared
    have hcount (s : Script) : s.undeclared.length =
        (s.functions.records.map Function.isDeclared).countP fun declared => !declared := by
      rw [undeclared, ← List.countP_eq_length_filter, List.countP_map]
      rfl
    rw [hcount, hcount, hflags]
  intro g hg
  obtain ⟨hg, hdeclared⟩ := List.mem_filter.mp hg
  obtain ⟨f, hf, hfg⟩ := hst.exists_source hg
  have hid : g.id = f.id := congrArg Outline.id hfg.outline
  rw [hlength, hid]
  exact h f (List.mem_filter.mpr ⟨hf, hfg.isDeclared ▸ hdeclared⟩)

lemma IsBuilt.flat (h : s.IsBuilt options laid roots stop built after)
    (hnests : s.NestsInDeclared (after.written (roots.map (Root.dress after.body?)) .empty).chains) :
    ∀ root ∈ roots.map (Root.dress after.body?), after.shown.functions.get? root.id = none →
      root.nesting.ids = [] := by
  have hstands := h.standsAfter
  intro root hroot hhidden
  have hids : (forestIds (roots.map (Root.dress after.body?))).Nodup :=
    hstands.once.nodup_iff.mpr after.functions.nodup
  have hn : root.ids.Nodup := (List.nodup_flatMap.mp hids).1 root hroot
  have hmem : root.id ∈ after.functions.ids :=
    hstands.once.subset (List.mem_flatMap.mpr ⟨root, hroot, List.mem_cons_self⟩)
  obtain ⟨g, hg, hid⟩ := List.mem_map.mp hmem
  obtain ⟨f, hf, hfg⟩ := h.retains.exists_source hg
  have hfid : f.id = root.id := (congrArg Outline.id hfg.outline).symm.trans hid
  refine hnests.ids_eq_nil (fun chain hchain => ?_) hn hf hfid ?_
  · have hchains : ((forestChains (roots.map (Root.dress after.body?))).map Keyed.id).Nodup := by
      rwa [← map_function_forestChains] at hids
    have hmem := List.mem_flatMap.mpr ⟨root, hroot, hchain⟩
    exact Registry.mem_of_get? (Registry.get?_foldl_insert_of_mem hchains .empty hmem)
  · rw [← hfg.isDeclared]
    by_contra hdeclared
    rw [Bool.not_eq_false] at hdeclared
    have hshown : after.shown.functions.get? g.id = some g :=
      get?_shown.mpr ⟨after.functions.get?_of_mem hg, hdeclared⟩
    rw [← hid, show Keyed.id g = g.id from rfl, hshown] at hhidden
    cases hhidden

/-- Parsing the bytes that were built, where nothing stands inside functions without declaration. -/
lemma IsBuilt.exists_carriesOver (h : s.IsBuilt options laid roots stop built after)
    (hstorable : s.shown.IsStorable) (hclear : s.IsClear) (howns : s.OwnsDeclared)
    (hkeeps : s.KeepsShown (after.written (roots.map (Root.dress after.body?)) .empty).chains)
    (hnests : s.NestsInDeclared (after.written (roots.map (Root.dress after.body?)) .empty).chains)
    (hleaves : s.LeavesIds) (hsize : built.bytes.size < 4 * UInt32.size) :
    ∃ parsed, parse options built.bytes = .ok parsed ∧ after.CarriesOver parsed := by
  have hrecoverable := h.recoverable howns hclear (h.flat hnests) hkeeps
  obtain ⟨found, hparse, hcomplete, hcollects⟩ := h.exists_found hstorable hrecoverable howns hsize
  exact ⟨_, hparse, hrecoverable.carriesOver hcomplete hcollects (hleaves.of_retains h.retains)
    (Registry.perm_of_get?_eq (h.get?_storedVars hstorable))⟩

/-- A container is parsed as the declared part of the script that building leaves behind, and with the
code of all other functions, as long as these host no function of the declared part: they own nothing,
no instruction refers to them, and there are ids for them after those of declared functions. -/
theorem parse_loose {emission : Emission} (hbuild : build options s = .ok built after)
    (hemission : after.emit .empty = .ok emission) (hstorable : s.shown.IsStorable) (hclear : s.IsClear)
    (howns : s.OwnsDeclared) (hrefers : s.RefersToDeclared)
    (hkeeps : s.KeepsReferences emission.chains) (hnests : s.NestsInDeclared emission.chains)
    (hleaves : s.LeavesIds) (hsize : built.bytes.size < 4 * UInt32.size) :
    ∃ parsed, parse options built.bytes = .ok parsed ∧ after.CarriesOver parsed := by
  obtain ⟨laid, roots, stop, h⟩ := (build_outcome options s).of_ok hbuild
  obtain ⟨rfl, -⟩ := (h.standsAfter.emit_yields ⟨0, rfl⟩).of_ok hemission
  have hshown := hkeeps.shown_of_refersToDeclared howns hrefers
  exact h.exists_carriesOver hstorable hclear howns hshown hnests hleaves hsize

end Built

/-- Code that starts a declared function and belongs to none. -/
def besideCode : Body .bound := [.thread ⟨.function 1, [], []⟩, .return]

/-- Code beside declared functions. The function that it starts stands before it. -/
def wayside : Script :=
  let last := (Function.new 1).push .return
  let beside := { Function.new 2 with isDeclared := false, code := besideCode }
  let first := ((Function.new 3).push .nop).push .return
  ((Script.new.addFunction first).addFunction beside).addFunction last

lemma isStorable_of_bare {s : Script} (hvars : s.vars = Script.new.vars)
    (himports : s.imports = .empty) (htables : s.tables = .empty)
    (hfunctions : ∀ f ∈ s.functions.records, f.isDeclared = true ∧ f.name = none ∧ f.OwnsNothing) :
    s.IsStorable := by
  refine ⟨fun f hf => (hfunctions f hf).1, fun f hf name hname => ?_, fun f hf v hv => ?_,
    fun f hf l hl => ?_, fun entry he => ?_, fun i hi => ?_, fun v hv => ?_, fun n hn => ?_⟩
  · rw [(hfunctions f hf).2.1] at hname
    cases hname
  · rw [(hfunctions f hf).2.2.vars] at hv
    cases hv
  · rw [(hfunctions f hf).2.2.labels] at hl
    cases hl
  · obtain he | he := List.mem_append.mp he
    · obtain ⟨t, ht, -⟩ := List.mem_map.mp he
      have ht : t ∈ s.tables.records := ht
      rw [htables] at ht
      cases ht
    · obtain ⟨f, hf, he⟩ := List.mem_flatMap.mp he
      rw [(hfunctions f hf).2.2.tables] at he
      cases he
  · have hi : i ∈ s.imports.records := hi
    rw [himports] at hi
    cases hi
  · have hv : v ∈ s.vars.records := hv
    rw [hvars, records_vars_new] at hv
    obtain ⟨n, hn, rfl⟩ := List.mem_map.mp hv
    exact .inl ⟨n, List.mem_range.mp hn, rfl⟩
  · rw [hvars]
    exact List.mem_map_of_mem (temporary_mem_vars_new hn)

lemma forall_mem_wayside {P : Function → Prop} : (∀ f ∈ wayside.functions.records, P f) ↔
    P (((Function.new 3).push .nop).push .return) ∧
      P { Function.new 2 with isDeclared := false, code := besideCode } ∧
      P ((Function.new 1).push .return) := by
  rw [show wayside.functions.records = [_, _, _] from rfl]
  simp only [List.forall_mem_cons, List.not_mem_nil, false_imp_iff, implies_true, and_true]

lemma wayside_isStorable : wayside.shown.IsStorable := by
  refine isStorable_of_bare rfl rfl rfl ?_
  rw [records_shown, declared, List.forall_mem_filter, forall_mem_wayside]
  exact ⟨fun _ => ⟨rfl, rfl, rfl, rfl, rfl⟩, fun h => absurd h Bool.false_ne_true,
    fun _ => ⟨rfl, rfl, rfl, rfl, rfl⟩⟩

lemma wayside_owns : wayside.OwnsDeclared :=
  forall_mem_wayside.mpr ⟨fun _ => ⟨rfl, rfl, rfl⟩, fun _ => ⟨rfl, rfl, rfl⟩, fun _ => ⟨rfl, rfl, rfl⟩⟩

lemma wayside_refers : wayside.RefersToDeclared :=
  forall_mem_wayside.mpr ⟨List.forall_mem_cons.mpr ⟨rfl, List.forall_mem_singleton.mpr rfl⟩,
    List.forall_mem_cons.mpr ⟨rfl, List.forall_mem_singleton.mpr rfl⟩, List.forall_mem_singleton.mpr rfl⟩

lemma wayside_keeps (scopes : List RecordId) :
    ∀ f ∈ wayside.functions.records, ∀ i ∈ f.code, wayside.Keeps scopes i :=
  forall_mem_wayside.mpr ⟨List.forall_mem_cons.mpr ⟨rfl, List.forall_mem_singleton.mpr rfl⟩,
    List.forall_mem_cons.mpr ⟨rfl, List.forall_mem_singleton.mpr rfl⟩, List.forall_mem_singleton.mpr rfl⟩

lemma wayside_written : (wayside.writing? .lenient).map (fun written => (written.2.chains.records,
      (containerBytes written.1.sectionBytes written.2.writer.bytes.toList).length)) =
    some ([⟨1, [1]⟩, ⟨2, [2]⟩, ⟨3, [3]⟩], 192) := by decide +kernel

theorem wayside_carriesOver : ∃ built after parsed, build .lenient wayside = .ok built after ∧
    parse .lenient built.bytes = .ok parsed ∧ after.CarriesOver parsed := by
  obtain ⟨built, after, emission, hbuild, hemission, hbytes, hfacts⟩ :=
    exists_build_of_writing wayside_written
  obtain ⟨hchains, hlength⟩ := Prod.mk.inj hfacts
  have hkeeps : wayside.KeepsReferences emission.chains :=
    ⟨fun f hf chain _ => wayside_keeps chain.scopes f hf, fun _ h => absurd h List.not_mem_nil⟩
  have hnests : wayside.NestsInDeclared emission.chains := by
    have hown : emission.chains.records.all fun chain => chain.scopes == [chain.function] := by
      rw [hchains]
      decide
    intro chain hchain f _ hmem hne
    rw [beq_iff_eq.mp (List.all_eq_true.mp hown chain hchain), List.mem_singleton] at hmem
    exact absurd hmem hne
  have hsize : built.bytes.size < 4 * UInt32.size := by
    rw [← Array.length_toList, hbytes, hlength]
    decide
  obtain ⟨parsed, hparsed⟩ := parse_loose hbuild hemission wayside_isStorable
    (isClear_of_all (by decide +kernel)) wayside_owns wayside_refers hkeeps hnests (by decide) hsize
  exact ⟨built, after, parsed, hbuild, hparsed⟩

/-- Code that the function stands in that it starts. -/
def hostel : Script :=
  let guest := (Function.new 1).push .return
  let host := { Function.new 2 with isDeclared := false, code := besideCode }
  (Script.new.addFunction guest).addFunction host

lemma forall_mem_hostel {P : Function → Prop} : (∀ f ∈ hostel.functions.records, P f) ↔
    P ((Function.new 1).push .return) ∧
      P { Function.new 2 with isDeclared := false, code := besideCode } := by
  rw [show hostel.functions.records = [_, _] from rfl]
  simp only [List.forall_mem_cons, List.not_mem_nil, false_imp_iff, implies_true, and_true]

/-- The container of the script. -/
def hostelBytes : Array UInt8 :=
  (magic ++ bytesOfWords [11, 11, 23, 24, 25, 26, 27, 28, 0, 1,
    0, 1, 0, 0, 4, 5, 0, 0, 0, 0, 0, 0, 0, 0, 0, 0, 6, 6, 1, 8, 17, 9, 9]).toArray

lemma hostel_written : (hostel.writing? .lenient).map (fun written =>
      containerBytes written.1.sectionBytes written.2.writer.bytes.toList) =
    some hostelBytes.toList := by decide +kernel

lemma hostel_fails : parse .lenient hostelBytes = .error (.malformed 136 (.codeOverrun 132)) := by
  have hopens : Opens hostelBytes 112 := by decide +kernel
  exact hopens.parse_error (by decide +kernel)

/-- A function without declaration that another one stands in, so that no container holds it. -/
theorem hostel_overruns :
    (hostel.shown.IsStorable ∧ hostel.IsClear ∧ hostel.OwnsDeclared ∧ hostel.RefersToDeclared ∧
      hostel.LeavesIds) ∧
    ∃ built after emission, build .lenient hostel = .ok built after ∧
      after.emit .empty = .ok emission ∧ hostel.KeepsReferences emission.chains ∧
      parse .lenient built.bytes = .error (.malformed 136 (.codeOverrun 132)) := by
  refine ⟨⟨isStorable_of_bare rfl rfl rfl ?_, isClear_of_all (by decide +kernel), ?_, ?_, by decide⟩, ?_⟩
  · rw [records_shown, declared, List.forall_mem_filter, forall_mem_hostel]
    exact ⟨fun _ => ⟨rfl, rfl, rfl, rfl, rfl⟩, fun h => absurd h Bool.false_ne_true⟩
  · exact forall_mem_hostel.mpr ⟨fun _ => ⟨rfl, rfl, rfl⟩, fun _ => ⟨rfl, rfl, rfl⟩⟩
  · exact forall_mem_hostel.mpr ⟨List.forall_mem_singleton.mpr rfl,
      List.forall_mem_cons.mpr ⟨rfl, List.forall_mem_singleton.mpr rfl⟩⟩
  · obtain ⟨built, after, emission, hbuild, hemission, hbytes, hfacts⟩ :=
      exists_build_of_writing hostel_written
    refine ⟨built, after, emission, hbuild, hemission, ?_, ?_⟩
    · refine ⟨fun f hf chain _ => ?_, fun _ h => absurd h List.not_mem_nil⟩
      revert f
      exact forall_mem_hostel.mpr ⟨fun _ => List.forall_mem_singleton.mpr rfl,
        fun _ => List.forall_mem_cons.mpr ⟨rfl, List.forall_mem_singleton.mpr rfl⟩⟩
    · rw [Array.toList_inj.mp (hbytes.trans hfacts), hostel_fails]

end Script

end ScriptContainer
