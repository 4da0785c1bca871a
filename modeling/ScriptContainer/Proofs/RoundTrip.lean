import ScriptContainer.Proofs.ReadingSections

/-!
# The round trip

A container that has been built is parsed as the script that building left behind, where all records
can be stored, no word of the code can be taken for another one, and every reference means the same
record where it is read.
-/

namespace ScriptContainer

namespace Script

variable {s laid after : Script} {options : Options} {roots : List Root} {stop : Nat}
  {built : Built}

/-- A container can hold all records of the script: everything is declared, no name or text has a
zero byte, variables are of their types, and those that no section holds are the temporaries. -/
structure IsStorable (s : Script) : Prop where
  declared : ∀ f ∈ s.functions.records, f.isDeclared
  names : ∀ f ∈ s.functions.records, ∀ name ∈ f.name, NulFree name
  owned : ∀ f ∈ s.functions.records, ∀ v ∈ f.vars.records, v.scope = .owned ∧ v.IsStored
  labels : ∀ f ∈ s.functions.records, ∀ l ∈ f.labels.records, ∀ name ∈ l.name, NulFree name
  tables : ∀ entry ∈ s.allTables, ∀ name ∈ entry.2.name, NulFree name
  imports : ∀ i ∈ s.imports.records, ∀ name ∈ i.name, NulFree name
  vars : ∀ v ∈ s.vars.records, (∃ n < Variable.temporaryCount, v = .temporary n) ∨
    (v.scope = .static ∨ v.scope = .constant ∨ v.scope = .global) ∧ v.IsStored
  temporaries : ∀ n < Variable.temporaryCount, (Variable.temporary n).id ∈ s.vars.ids

/-- The scripts hold the same records, of which the variables may stand in another order. -/
structure SameRecords (s t : Script) : Prop where
  imports : t.imports = s.imports
  functions : t.functions = s.functions
  vars : t.vars.records.Perm s.vars.records
  tables : t.tables = s.tables
  padding : t.padding = s.padding

lemma IsStorable.get?_storedVars (h : s.IsStorable) (id : RecordId) :
    s.storedVars.get? id = s.vars.get? id := by
  rw [storedVars, Registry.get?_foldl_insert]
  let held := s.variablesIn .static ++ (s.variablesIn .constant ++ s.variablesIn .global)
  have hmem (v : Variable) : v ∈ held ↔ v ∈ s.vars.records ∧
      (v.scope = .static ∨ v.scope = .constant ∨ v.scope = .global) := by
    simp only [held, variablesIn, List.mem_append, List.mem_filter, beq_iff_eq]
    tauto
  change (held.reverse.find? _).or _ = _
  cases hfind : held.reverse.find? fun v => Keyed.id v == id with
  | some v =>
    have hv := List.mem_reverse.mp (List.mem_of_find?_eq_some hfind)
    have hid : Keyed.id v = id := by simpa using List.find?_some hfind
    rw [Option.some_or, ← hid]
    exact (s.vars.get?_of_mem ((hmem v).mp hv).1).symm
  | none =>
    have hnone (v : Variable) (hv : v ∈ held) : Keyed.id v ≠ id := by
      have := List.find?_eq_none.mp hfind v (List.mem_reverse.mpr hv)
      rwa [beq_iff_eq] at this
    rw [Option.none_or]
    cases hget : s.vars.get? id with
    | some v =>
      obtain ⟨hv, hid⟩ := Registry.get?_eq_some_iff.mp hget
      rcases h.vars v hv with ⟨n, hn, rfl⟩ | ⟨hscope, -⟩
      · refine Registry.get?_eq_some_iff.mpr ⟨?_, hid⟩
        rw [records_vars_new]
        exact List.mem_map_of_mem (List.mem_range.mpr hn)
      · exact absurd hid (hnone v ((hmem v).mpr ⟨hv, hscope⟩))
    | none =>
      rw [Registry.get?_eq_none_iff] at hget ⊢
      intro hid
      rw [Registry.ids, records_vars_new, List.map_map] at hid
      obtain ⟨n, hn, rfl⟩ := List.mem_map.mp hid
      exact hget (h.temporaries n (List.mem_range.mp hn))

namespace IsBuilt

variable (h : s.IsBuilt options laid roots stop built after)
include h

lemma storedVars_eq : after.storedVars = s.storedVars := by
  simp only [storedVars, variablesIn, h.retains.vars]

lemma get?_storedVars (hs : s.shown.IsStorable) (id : RecordId) :
    after.storedVars.get? id = after.vars.get? id := by
  rw [h.storedVars_eq, h.retains.vars]
  exact hs.get?_storedVars id

lemma stop_le_size : stop ≤ built.bytes.size := by
  rw [h.size_eq]
  omega

lemma isDeclared_get? (id : RecordId) : (after.functions.get? id).map Function.isDeclared =
    (s.functions.get? id).map Function.isDeclared := by
  have hrel := h.retains.get? id
  revert hrel
  generalize s.functions.get? id = before, after.functions.get? id = behind
  rintro (hfg | _)
  · exact congrArg some hfg.isDeclared
  · rfl

lemma shown_sameOutline : s.shown.SameOutline after.shown :=
  h.retains.sameOutline.shown h.isDeclared_get?

lemma exists_shown_source {g : Function} (hg : g ∈ after.shown.functions.records) :
    ∃ f ∈ s.shown.functions.records, f.Retains g := by
  obtain ⟨hg, hdeclared⟩ := mem_shown.mp hg
  obtain ⟨f, hf, hfg⟩ := h.retains.exists_source hg
  exact ⟨f, mem_shown.mpr ⟨hf, hfg.isDeclared ▸ hdeclared⟩, hfg⟩

lemma ownsDeclared (hs : s.OwnsDeclared) : after.OwnsDeclared := by
  intro g hg hundeclared
  obtain ⟨f, hf, hfg⟩ := h.retains.exists_source hg
  exact (hs f hf (hfg.isDeclared ▸ hundeclared)).of_outline hfg.outline

lemma table_isStored (hs : s.shown.IsStorable) (howns : s.OwnsDeclared) {entry : TableRef × Table}
    (he : entry ∈ after.allTables) : entry.2.IsStored built.bytes.size := by
  have hstands := h.standsAfter
  have hspan : entry.2.span ∈ after.allTables.map fun entry => entry.2.span :=
    List.mem_map_of_mem (f := fun entry : TableRef × Table => entry.2.span) he
  refine ⟨?_, ?_, ?_⟩
  · obtain ⟨before, hbefore, -, hretained⟩ := forall₂_exists_left h.retains.allTables he
    rw [hretained.name]
    exact hs.tables before (by rwa [allTables_shown howns])
  · refine hstands.tables.four_dvd (four_dvd_forestSize h.writableAfter.code) ?_ _ hspan
    simp only [List.forall_mem_map]
    exact fun entry _ hdvd => Nat.dvd_add hdvd entry.2.four_dvd_payloadSize
  · have hle := hstands.tables.bounds hspan
    exact (hle.2.1.trans hle.2.2).trans h.stop_le_size

lemma function_isStored (hs : s.shown.IsStorable) (howns : s.OwnsDeclared) {g : Function}
    (hg : g ∈ after.shown.functions.records) : g.IsStored built.bytes.size := by
  have hstands := h.standsAfter
  obtain ⟨f, hf, hfg⟩ := h.exists_shown_source hg
  have hg := (mem_shown.mp hg).1
  obtain ⟨p, hp, -, hstart, hstop, -⟩ := hstands.exists_plot hg
  have hcode : ∀ i ∈ p.nesting.allCode, after.Encodes i :=
    fun i hi => h.writableAfter.code i (mem_forestCode_of_mem_plots hp hi)
  have hdvd : 4 ∣ p.start :=
    four_dvd_of_mem_forestPlots h.writableAfter.code (Nat.dvd_zero 4) p hp
  have hinside : p.start ≤ p.stop ∧ p.stop ≤ built.bytes.size := by
    have hplot := (bounds_of_mem_forestPlots hp).2
    have htables := hstands.tables.start_le_stop
    have hsize := h.stop_le_size
    have : p.start ≤ p.stop := Nat.le_add_right _ _
    omega
  refine ⟨?_, ?_, ?_, ?_, ?_, fun t ht => ?_, fun l hl => ?_⟩
  · rw [hfg.name]
    exact hs.names f hf
  · rwa [hstart]
  · rw [hstop]
    exact Nat.dvd_add hdvd (Nesting.four_dvd_size hcode)
  · omega
  · rw [hfg.vars]
    exact hs.owned f hf
  · have he : ((⟨.function g.id, t.id⟩ : TableRef), t) ∈ after.allTables :=
      List.mem_append_right _ (List.mem_flatMap.mpr ⟨g, hg, List.mem_map_of_mem ht⟩)
    exact h.table_isStored hs howns he
  · have hname : l.name ∈ f.labels.records.map Label.name := by
      rw [← hfg.labels]
      exact List.mem_map_of_mem hl
    obtain ⟨before, hbefore, hname⟩ := List.mem_map.mp hname
    rw [← hname]
    exact hs.labels f hf before hbefore

lemma isStored (hs : s.shown.IsStorable) (howns : s.OwnsDeclared) :
    after.shown.IsStored built.bytes.size := by
  refine ⟨fun g hg => (mem_shown.mp hg).2, fun g hg => h.function_isStored hs howns hg,
    fun scope hscope v hv => ?_, fun t ht => ?_, ?_⟩
  · obtain ⟨hv, hvscope⟩ := List.mem_filter.mp hv
    rw [beq_iff_eq] at hvscope
    have hv : v ∈ s.vars.records := h.retains.vars ▸ hv
    rcases hs.vars v hv with ⟨n, -, rfl⟩ | ⟨-, hstored⟩
    · rcases hscope with rfl | rfl | rfl <;> cases hvscope
    · exact hstored
  · have he : ((⟨.script, t.id⟩ : TableRef), t) ∈ after.allTables :=
      List.mem_append_left _ (List.mem_map_of_mem ht)
    exact h.table_isStored hs howns he
  · have himports : after.shown.imports = s.shown.imports := h.retains.imports
    rw [himports]
    exact hs.imports

lemma keepsShown {chains : Registry Chain} (hk : s.KeepsShown chains) : after.KeepsShown chains := by
  refine ⟨fun g hg chain hchain j hj => ?_, fun entry he refs hrefs ref href => ?_⟩
  · obtain ⟨f, hf, hfg⟩ := h.retains.exists_source hg
    obtain ⟨i, hi, hij⟩ := hfg.exists_instruction hj
    have hid : g.id = f.id := congrArg Outline.id hfg.outline
    rw [hid] at hchain
    exact ((hk.code f hf chain hchain i hi).of_sameOutline h.shown_sameOutline).of_untargeted hij
  · obtain ⟨before, hbefore, howner, hretained⟩ := forall₂_exists_left h.retains.allTables he
    rw [hretained.values] at hrefs
    rw [(h.shown_sameOutline.under _).findVariable_eq, howner]
    exact hk.tables before hbefore refs hrefs ref href

lemma recoverable (howns : s.OwnsDeclared) (hclear : s.IsClear)
    (hflat : ∀ root ∈ roots.map (Root.dress after.body?),
      after.shown.functions.get? root.id = none → root.nesting.ids = [])
    (hkeeps : s.KeepsShown (after.written (roots.map (Root.dress after.body?)) .empty).chains) :
    after.Recoverable (roots.map (Root.dress after.body?)) stop := by
  have hstands := h.standsAfter
  refine ⟨hstands, fun j hj => ?_, (h.keepsShown hkeeps).keepsUnder hstands, h.ownsDeclared howns,
    hflat, fun entry he => (h.writableAfter.tables entry he).1, (h.keepsShown hkeeps).tables⟩
  obtain ⟨p, hp, hcode⟩ := exists_plot_of_mem_forestCode 0 hj
  obtain ⟨g, hg, -, -, -, hgcode⟩ := hstands.holds p hp
  rw [← hgcode] at hcode
  obtain ⟨f, hf, hfg⟩ := h.retains.exists_source (Registry.mem_of_get? hg)
  obtain ⟨i, hi, hij⟩ := hfg.exists_instruction hcode
  exact hclear.spells h.retains.sameOutline hf hi hij (h.writableAfter.code j hj)

/-- Parsing the bytes that were built gives the declared part of the script, and code that belongs to
no declared function. -/
lemma exists_found (hstorable : s.shown.IsStorable) (hrecoverable :
    after.Recoverable (roots.map (Root.dress after.body?)) stop) (howns : s.OwnsDeclared)
    (hsize : built.bytes.size < 4 * UInt32.size) :
    ∃ found : Findings,
      parse options built.bytes = .ok (found.apply (after.shown.bare after.storedVars)) ∧
        found.Complete after.shown ∧ found.Collects after (roots.map (Root.dress after.body?)) := by
  have hstored := h.isStored hstorable howns
  have hids (id : RecordId) : id ∈ after.storedVars.ids ↔ id ∈ after.vars.ids := by
    rw [← Registry.get?_isSome_iff, h.get?_storedVars hstorable, Registry.get?_isSome_iff]
  rw [h.built] at hsize hstored ⊢
  exact hrecoverable.parse_container h.writableAfter h.labels hstored hids hsize

end IsBuilt

lemma Stands.get?_shown_ne_none {t : Script} (h : t.Stands roots stop)
    (hdeclared : ∀ f ∈ t.functions.records, f.isDeclared = true) {root : Root} (hroot : root ∈ roots) :
    t.shown.functions.get? root.id ≠ none := by
  rw [shown_eq_self hdeclared, Ne, Registry.get?_eq_none_iff, not_not]
  exact h.once.subset (List.mem_flatMap.mpr ⟨root, hroot, List.mem_cons_self⟩)

lemma Recoverable.eq_of_declared {t : Script} (h : t.Recoverable roots stop)
    (hdeclared : ∀ f ∈ t.functions.records, f.isDeclared = true) {found : Findings}
    (hcollects : found.Collects t roots) : found.gaps = [] ∧ found.trailing = t.padding.code := by
  have hnone {row : Row} (hrow : row ∈ (t.looseRows roots).1 ∨ row = (t.looseRows roots).2) :
      row.nesting.code = [] := by
    rw [row.code_nesting, List.flatMap_eq_nil_iff]
    intro p hp
    obtain ⟨f, hf, hundeclared, -⟩ := h.exists_loose hrow hp
    rw [hdeclared f hf] at hundeclared
    cases hundeclared
  obtain ⟨id, hgaps⟩ := hcollects.gaps
  obtain ⟨ws, hws, htrailing⟩ := hcollects.trailing
  constructor
  · have hrows : (t.looseRows roots).1.filter (fun row => row.nesting.size != 0) = [] := by
      refine List.filter_eq_nil_iff.mpr fun row hrow hsize => ?_
      rw [Nesting.eq_done_of_code (hnone (.inl hrow))] at hsize
      cases hsize
    have hall := hgaps.forall₂
    rw [hrows] at hall
    exact List.forall₂_nil_right_iff.mp hall
  · rw [hnone (.inr rfl)] at hws
    cases hws
    exact htrailing

lemma IsBuilt.exists_parse {emission : Emission} (h : s.IsBuilt options laid roots stop built after)
    (hemission : after.emit .empty = .ok emission) (hstorable : s.IsStorable) (hclear : s.IsClear)
    (hkeeps : s.KeepsReferences emission.chains) (hsize : built.bytes.size < 4 * UInt32.size) :
    ∃ parsed, parse options built.bytes = .ok parsed ∧ after.SameRecords parsed := by
  obtain ⟨rfl, -⟩ := (h.standsAfter.emit_yields ⟨0, rfl⟩).of_ok hemission
  have hself : s.shown = s := shown_eq_self hstorable.declared
  have hdeclared : ∀ g ∈ after.functions.records, g.isDeclared = true := by
    intro g hg
    obtain ⟨f, hf, hfg⟩ := h.retains.exists_source hg
    exact hfg.isDeclared.trans (hstorable.declared f hf)
  have howns : s.OwnsDeclared := fun f hf hundeclared => by
    rw [hstorable.declared f hf] at hundeclared
    cases hundeclared
  have hrecoverable := h.recoverable howns hclear (fun root hroot hnone => ?_)
    (hkeeps.shown hstorable.declared)
  · obtain ⟨found, hparse, hcomplete, hcollects⟩ :=
      h.exists_found (by rwa [hself]) hrecoverable howns hsize
    obtain ⟨hgaps, htrailing⟩ := hrecoverable.eq_of_declared hdeclared hcollects
    rw [shown_eq_self hdeclared] at hparse hcomplete
    rw [hcomplete.apply_bare hdeclared, hgaps, htrailing] at hparse
    exact ⟨_, hparse, rfl, rfl, Registry.perm_of_get?_eq (h.get?_storedVars (by rwa [hself])), rfl, rfl⟩
  · exact absurd hnone (h.standsAfter.get?_shown_ne_none hdeclared hroot)

/-- A container that has been built is parsed as the script that building leaves behind. References
are looked up in the scopes under which the code was written. The header counts in words of 32 bits,
so that it cannot say where the sections of a greater container start. -/
theorem parse_build {emission : Emission} (hbuild : build options s = .ok built after)
    (hemission : after.emit .empty = .ok emission) (hstorable : s.IsStorable) (hclear : s.IsClear)
    (hkeeps : s.KeepsReferences emission.chains) (hsize : built.bytes.size < 4 * UInt32.size) :
    ∃ parsed, parse options built.bytes = .ok parsed ∧ after.SameRecords parsed := by
  obtain ⟨laid, roots, stop, h⟩ := (build_outcome options s).of_ok hbuild
  exact h.exists_parse hemission hstorable hclear hkeeps hsize

lemma isClear_of_all (h : s.functions.records.all fun f => f.code.all fun i =>
    (i.change s.numbering).toOption.all Instruction.isClear) : s.IsClear := by
  intro f hf i hi n hn
  have hclear := List.all_eq_true.mp (List.all_eq_true.mp h f hf) i hi
  rwa [hn] at hclear

/-- Code that adds to a variable of its own function and starts the function again. -/
def errandCode : Body .bound :=
  let count : VarRef := ⟨.function 1, 2⟩
  let sum := [.symbol (.variable count), .symbol (.variable ⟨.script, 3⟩), .operator .add]
  [.set count (.expr sum), .thread ⟨.function 1, [], [count]⟩, .return]

/-- A script with a function, a variable of the function and one of the script. -/
def errand : Script :=
  let count : Variable := ⟨2, some "count", .owned, .int, 0, .int 7⟩
  let title : Variable := ⟨3, some "title", .static, .string, 0, .string "Errand"⟩
  let run := { Function.new 1 with name := some "run", code := errandCode }
  (Script.new.addVariable title).addFunction (run.addVariable count)

lemma errand_isStorable : errand.IsStorable := by
  refine ⟨by decide, by decide +kernel, fun f hf v hv => ?_, by decide,
    fun _ h => absurd h List.not_mem_nil, fun _ h => absurd h List.not_mem_nil, ?_,
    by decide +kernel⟩
  · obtain rfl := List.mem_singleton.mp hf
    obtain rfl := List.mem_singleton.mp hv
    exact ⟨rfl, by decide +kernel, by decide, rfl, fun _ h => by cases h⟩
  · have hvars : errand.vars.records =
        new.vars.records ++ [⟨3, some "title", .static, .string, 0, .string "Errand"⟩] :=
      Registry.records_insert_of_notMem (by decide)
    rw [hvars, List.forall_mem_append, records_vars_new]
    refine ⟨List.forall_mem_map.mpr fun n hn => .inl ⟨n, List.mem_range.mp hn, rfl⟩, fun v hv => ?_⟩
    obtain rfl := List.mem_singleton.mp hv
    refine .inr ⟨.inl rfl, by decide +kernel, by decide, rfl, ?_⟩
    rintro text ⟨⟩
    decide +kernel

lemma errand_isClear : errand.IsClear := isClear_of_all (by decide +kernel)

lemma errand_keeps : ∀ i ∈ errandCode, errand.Keeps [1] i := by
  simp only [errandCode, List.forall_mem_cons]
  exact ⟨rfl, rfl, rfl, fun _ h => absurd h List.not_mem_nil⟩

lemma errand_built : ∃ built after emission, build .lenient errand = .ok built after ∧
    after.emit .empty = .ok emission ∧ errand.KeepsReferences emission.chains ∧
    built.bytes.size < 4 * UInt32.size := by
  have hfacts : (errand.writing? .lenient).map (fun written =>
      (written.2.chains.records.map Chain.scopes,
        (containerBytes written.1.sectionBytes written.2.writer.bytes.toList).length)) =
      some ([[1]], 240) := by decide +kernel
  obtain ⟨built, after, emission, hbuild, hemit, hbytes, hfacts⟩ := exists_build_of_writing hfacts
  obtain ⟨hscopes, hlength⟩ := Prod.mk.inj hfacts
  refine ⟨built, after, emission, hbuild, hemit, ?_, ?_⟩
  · refine ⟨fun f hf chain hchain i hi => ?_, fun _ h => absurd h List.not_mem_nil⟩
    obtain rfl := List.mem_singleton.mp hf
    have hchain := List.mem_map_of_mem (f := Chain.scopes) (Registry.mem_of_get? hchain)
    rw [hscopes, List.mem_singleton] at hchain
    rw [hchain]
    exact errand_keeps i hi
  · rw [← Array.length_toList, hbytes, hlength]
    decide

theorem errand_returns : ∃ built after parsed, build .lenient errand = .ok built after ∧
    parse .lenient built.bytes = .ok parsed ∧ after.SameRecords parsed := by
  obtain ⟨built, after, emission, hbuild, hemit, hkeeps, hsize⟩ := errand_built
  obtain ⟨parsed, hparsed⟩ :=
    parse_build hbuild hemit errand_isStorable errand_isClear hkeeps hsize
  exact ⟨built, after, parsed, hbuild, hparsed⟩

end Script

end ScriptContainer
