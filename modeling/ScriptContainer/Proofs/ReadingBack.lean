import ScriptContainer.Proofs.ReadingSections
import ScriptContainer.Proofs.Spelling

/-!
# Records read back

A document of a script repeats its records. Reading them gives the script without code and without
the variables in tables.
-/

namespace ScriptContainer

/-- The value is of the type, and a type that is known by its code alone is none of the others. -/
structure Variable.IsTyped (v : Variable) : Prop where
  fits : v.value.fits v.type
  raw : ∀ code, v.type = .raw code → code ≠ 0 ∧ code ≠ 1 ∧ code ≠ 3

instance (type : ValueType) :
    Decidable (∀ code, type = .raw code → code ≠ 0 ∧ code ≠ 1 ∧ code ≠ 3) :=
  match type with
  | .raw code => decidable_of_iff (code ≠ 0 ∧ code ≠ 1 ∧ code ≠ 3)
      ⟨fun h _ he => ValueType.raw.inj he ▸ h, fun h => h code rfl⟩
  | .int | .float | .string => isTrue fun _ he => ValueType.noConfusion he

instance (v : Variable) : Decidable v.IsTyped :=
  decidable_of_iff (v.value.fits v.type ∧ ∀ code, v.type = .raw code → code ≠ 0 ∧ code ≠ 1 ∧ code ≠ 3)
    ⟨fun h => ⟨h.1, h.2⟩, fun h => ⟨h.fits, h.raw⟩⟩

/-- The declared type and the declared length are those of the values. -/
structure Table.IsTyped (t : Table) : Prop where
  type : t.values.type = t.type
  length : t.values.size = t.length.toNat

instance (t : Table) : Decidable t.IsTyped :=
  decidable_of_iff (t.values.type = t.type ∧ t.values.size = t.length.toNat)
    ⟨fun h => ⟨h.1, h.2⟩, fun h => ⟨h.type, h.length⟩⟩

/-- What a document can say of the records: the variables are the temporaries, left as they are, with
others added, the variables of functions are their own, and values are of the declared types. -/
structure Script.IsExportable (s : Script) : Prop where
  added : ∃ vars : List Variable, s.vars = vars.foldl Registry.insert new.vars
  untouched : ∀ v ∈ s.vars.records, v.scope = .temporary →
    ∃ n < Variable.temporaryCount, v = .temporary n
  vars : ∀ v ∈ s.vars.records, v.IsTyped
  owned : ∀ f ∈ s.functions.records, ∀ v ∈ f.vars.records, v.scope = .owned ∧ v.IsTyped
  tables : ∀ entry ∈ s.allTables, entry.2.IsTyped

def TableValues.unbound : TableValues VarRef → TableValues VarRef
  | .vars _ => .vars []
  | .ints values => .ints values
  | .floats values => .floats values
  | .bytes values => .bytes values

def Table.unbound (t : Table) : Table :=
  { t with length := UInt32.ofNat t.values.unbound.size, values := t.values.unbound }

lemma Table.id_unbound (t : Table) : Keyed.id t.unbound = Keyed.id t := rfl

/-- The function without code, its tables without variables. -/
def Function.unbound (f : Function) : Function :=
  { f with tables := f.tables.map Table.unbound Table.id_unbound, code := [] }

lemma Function.id_unbound (f : Function) : Keyed.id f.unbound = Keyed.id f := rfl

/-- The script without code, its tables without variables. -/
def Script.unbound (s : Script) : Script :=
  { s with
    tables := s.tables.map Table.unbound Table.id_unbound
    functions := s.functions.map Function.unbound Function.id_unbound }

lemma Table.IsTyped.unbound_eq {t : Table} (h : t.IsTyped) (hplain : ∀ refs, t.values ≠ .vars refs) :
    t.unbound = t := by
  obtain ⟨id, name, type, length, start, values⟩ := t
  have hlength : UInt32.ofNat values.size = length := by
    rw [h.length, UInt32.ofNat_toNat]
  cases values with
  | vars refs => exact absurd rfl (hplain refs)
  | ints _ | floats _ | bytes _ => exact congrArg (Table.mk id name type · start _) hlength

lemma Script.temporary_mem_vars_new {n : Nat} (hn : n < Variable.temporaryCount) :
    Variable.temporary n ∈ new.vars.records := by
  rw [records_vars_new]
  exact List.mem_map_of_mem (List.mem_range.mpr hn)

lemma Script.IsExportable.foldl_vars {s : Script} (h : s.IsExportable) :
    (s.vars.records.filter fun v => v.scope != .temporary).foldl Registry.insert new.vars = s.vars := by
  obtain ⟨added, hadded⟩ := h.added
  have hprefix : new.vars.ids <+: s.vars.ids := hadded ▸ Registry.ids_prefix_foldl_insert added _
  obtain ⟨rest, hrest⟩ := hprefix
  -- The records in the places of the temporaries come first, and no temporary comes after them.
  obtain ⟨firsts, others, hvars, hfirsts, hothers⟩ := List.map_eq_append_iff.mp hrest.symm
  have hids := s.vars.nodup
  rw [hvars, List.map_append, List.nodup_append] at hids
  have hlater : others.filter (fun v => v.scope != .temporary) = others := by
    rw [List.filter_eq_self]
    intro v hv
    rw [bne_iff_ne]
    intro hscope
    obtain ⟨n, hn, rfl⟩ := h.untouched v (by simp [hvars, hv]) hscope
    refine hids.2.2 _ ?_ _ (List.mem_map_of_mem hv) rfl
    rw [hfirsts]
    exact List.mem_map_of_mem (Script.temporary_mem_vars_new hn)
  let placed : Registry Variable := ⟨firsts, hids.1⟩
  have hplaced : (placed.records.filter fun v => v.scope != .temporary).foldl Registry.insert new.vars =
      placed := by
    refine Registry.foldl_insert_filter hfirsts fun v hv hscope => ?_
    have hmem : v ∈ s.vars.records := by
      rw [hvars]
      exact List.mem_append_left _ hv
    obtain ⟨n, hn, rfl⟩ := h.untouched v hmem (by simpa using hscope)
    exact Script.temporary_mem_vars_new hn
  apply Registry.ext
  rw [hvars, List.filter_append, hlater, List.foldl_append, hplaced]
  refine Registry.records_foldl_insert ?_
  rw [Registry.ids, ← List.map_append, ← hvars]
  exact s.vars.nodup

lemma Script.foldl_addTable (ts : List Table) (s : Script) :
    ts.foldl addTable s = { s with tables := ts.foldl Registry.insert s.tables } :=
  List.foldl_hom (fun tables => ({ s with tables } : Script)) fun _ _ => rfl

namespace Function

lemma foldl_addVariable {vs : List Variable} (h : ∀ v ∈ vs, v.scope = .owned) (f : Function) :
    vs.foldl addVariable f = { f with vars := vs.foldl Registry.insert f.vars } := by
  induction vs generalizing f with
  | nil => rfl
  | cons v vs ih =>
    rw [List.forall_mem_cons] at h
    have hv : { v with scope := .owned } = v := by rw [← h.1]
    rw [List.foldl_cons, ih h.2, addVariable, hv]
    rfl

lemma foldl_addTable (ts : List Table) (f : Function) :
    ts.foldl addTable f = { f with tables := ts.foldl Registry.insert f.tables } :=
  List.foldl_hom (fun tables => ({ f with tables } : Function)) fun _ _ => rfl

lemma foldl_addLabel (ls : List Label) (f : Function) :
    ls.foldl addLabel f = { f with labels := ls.foldl Registry.insert f.labels } :=
  List.foldl_hom (fun labels => ({ f with labels } : Function)) fun _ _ => rfl

end Function

namespace Document

lemma requireDistinct_eq (kind : RecordKind) {ids seen : List RecordId} (hn : ids.Nodup)
    (hseen : ∀ id ∈ ids, id ∉ seen) : requireDistinct kind seen ids = .ok () := by
  induction ids generalizing seen with
  | nil => rfl
  | cons id ids ih =>
    rw [List.nodup_cons] at hn
    rw [List.forall_mem_cons] at hseen
    rw [requireDistinct, if_neg (by simpa using hseen.1)]
    refine ih hn.2 fun other hother hmem => ?_
    rcases List.mem_cons.mp hmem with rfl | hmem
    · exact hn.1 hother
    · exact hseen.2 other hother hmem

lemma requireDistinct_map {α β : Type} [Keyed α] (kind : RecordKind) {xs : List α}
    (hn : (xs.map Keyed.id).Nodup) {doc : α → β} {id : β → RecordId}
    (hid : ∀ x, id (doc x) = Keyed.id x) : requireDistinct kind [] ((xs.map doc).map id) = .ok () := by
  have hids : (xs.map doc).map id = xs.map Keyed.id := by
    rw [List.map_map]
    exact List.map_congr_left fun x _ => hid x
  rw [hids]
  exact requireDistinct_eq kind hn fun _ _ => List.not_mem_nil

lemma Variable.toRecord_ofRecord {v : ScriptContainer.Variable} (h : v.IsTyped) :
    (Variable.ofRecord v).toRecord = .ok v := by
  obtain ⟨id, name, scope, type, flags, value⟩ := v
  obtain ⟨hfits, hraw⟩ := h
  cases value with
  | int value =>
    cases type with
    | int => rfl
    | _ => cases hfits
  | float value =>
    cases type with
    | float =>
      by_cases hfinite : value.isFinite = true
      · simp [ofRecord, Value.ofValue, toRecord, hfinite]
      · simp [ofRecord, Value.ofValue, toRecord, hfinite]
    | _ => cases hfits
  | string text =>
    cases type with
    | string => rfl
    | _ => cases hfits
  | raw word =>
    cases type with
    | raw code =>
      obtain ⟨hfloat, hint, hstring⟩ := hraw code rfl
      have hcode : ValueType.ofCode code = .raw code := by
        rw [ValueType.ofCode, if_neg hfloat, if_neg hint, if_neg hstring]
      simp only [ofRecord, Value.ofValue, toRecord, ValueType.code, hcode]
    | _ => cases hfits

lemma Table.toRecord_ofRecord (ctx : Context) {t : ScriptContainer.Table} (h : t.IsTyped) :
    (Table.ofRecord ctx t).toRecord = t.unbound := by
  obtain ⟨htype, -⟩ := h
  rw [toRecord, ScriptContainer.Table.unbound, ← htype]
  unfold ofRecord
  cases t.values <;> rfl

lemma mapM_toRecord {vs : List ScriptContainer.Variable} (h : ∀ v ∈ vs, v.IsTyped) :
    (vs.map Variable.ofRecord).mapM Variable.toRecord = .ok vs := by
  rw [mapM_eq_ok_iff, List.forall₂_map_left_iff, List.forall₂_same]
  exact fun v hv => Variable.toRecord_ofRecord (h v hv)

lemma map_toRecord (ctx : Context) {ts : List ScriptContainer.Table} (h : ∀ t ∈ ts, t.IsTyped) :
    (ts.map (Table.ofRecord ctx)).map Table.toRecord = ts.map ScriptContainer.Table.unbound := by
  rw [List.map_map]
  exact List.map_congr_left fun t ht => Table.toRecord_ofRecord ctx (h t ht)

lemma Function.toRecord_ofRecord (own code : Context) {f : ScriptContainer.Function}
    (hvars : ∀ v ∈ f.vars.records, v.scope = .owned ∧ v.IsTyped)
    (htables : ∀ t ∈ f.tables.records, t.IsTyped) :
    (Function.ofRecord own code f).toRecord = .ok f.unbound := by
  have hlabels : requireDistinct .label [] (f.labels.records.map Label.id) = .ok () :=
    requireDistinct_eq _ f.labels.nodup fun _ _ => List.not_mem_nil
  have hvar : ∀ v, (Variable.ofRecord v).id = Keyed.id v := fun _ => rfl
  have htable : ∀ t, (Table.ofRecord own t).id = Keyed.id t := fun _ => rfl
  unfold toRecord
  rw [show (ofRecord own code f).vars = f.vars.records.map Variable.ofRecord from rfl,
    show (ofRecord own code f).tables = f.tables.records.map (Table.ofRecord own) from rfl,
    show (ofRecord own code f).labels = f.labels.records from rfl,
    requireDistinct_map _ f.vars.nodup hvar, requireDistinct_map _ f.tables.nodup htable, hlabels,
    mapM_toRecord fun v hv => (hvars v hv).2, map_toRecord own htables]
  simp only [ok_bind]
  rw [ScriptContainer.Function.foldl_addVariable fun v hv => (hvars v hv).1,
    ScriptContainer.Function.foldl_addTable, ScriptContainer.Function.foldl_addLabel]
  have hvars : f.vars.records.foldl Registry.insert .empty = f.vars := f.vars.ofList_records
  have htables : (f.tables.records.map ScriptContainer.Table.unbound).foldl Registry.insert .empty =
      f.unbound.tables := f.unbound.tables.ofList_records
  have hlabels : f.labels.records.foldl Registry.insert .empty = f.labels := f.labels.ofList_records
  refine congrArg Except.ok ?_
  change ScriptContainer.Function.mk _ _ _ _ _ _ _ _ (f.vars.records.foldl Registry.insert .empty)
    ((f.tables.records.map ScriptContainer.Table.unbound).foldl Registry.insert .empty)
    (f.labels.records.foldl Registry.insert .empty) _ = _
  rw [hvars, htables, hlabels]
  rfl

/-- The records of the document of a script are those of the script. -/
theorem records_ofScript {s : Script} (h : s.IsExportable) : (ofScript s).records = .ok s.unbound := by
  have hvar : ∀ v, (Variable.ofRecord v).id = Keyed.id v := fun _ => rfl
  have htable : ∀ t, (Table.ofRecord (.new s) t).id = Keyed.id t := fun _ => rfl
  have hfunction : ∀ f, (Function.ofRecord ((Context.new s).push f)
      (.ofCode s (s.scopeChains ScriptContainer.Function.spawns) f) f).id = Keyed.id f := fun _ => rfl
  have hdistinctImports : requireDistinct .imported [] ((ofScript s).imports.map Import.id) = .ok () :=
    requireDistinct_eq _ s.imports.nodup fun _ _ => List.not_mem_nil
  have hdistinctVars : requireDistinct .variable [] ((ofScript s).vars.map Variable.id) = .ok () :=
    requireDistinct_map _ (s.vars.nodup.sublist (List.filter_sublist.map _)) hvar
  have hdistinctTables : requireDistinct .table [] ((ofScript s).tables.map Table.id) = .ok () :=
    requireDistinct_map _ s.tables.nodup htable
  have hdistinctFunctions :
      requireDistinct .function [] ((ofScript s).functions.map Function.id) = .ok () :=
    requireDistinct_map _ s.functions.nodup hfunction
  have hvars : (ofScript s).vars.mapM Variable.toRecord =
      .ok (s.vars.records.filter fun v => v.scope != .temporary) :=
    mapM_toRecord fun v hv => h.vars v (List.mem_of_mem_filter hv)
  have htables : (ofScript s).tables.map Table.toRecord =
      s.tables.records.map ScriptContainer.Table.unbound :=
    map_toRecord _ fun t ht =>
      h.tables (⟨.script, t.id⟩, t) (List.mem_append_left _ (List.mem_map_of_mem ht))
  have hfunctions : (ofScript s).functions.mapM Function.toRecord =
      .ok (s.functions.records.map ScriptContainer.Function.unbound) := by
    rw [mapM_eq_ok_iff]
    change List.Forall₂ _ (s.functions.records.map _) _
    rw [List.forall₂_map_left_iff, List.forall₂_map_right_iff, List.forall₂_same]
    intro f hf
    refine Function.toRecord_ofRecord _ _ (h.owned f hf) fun t ht => ?_
    refine h.tables (⟨.function f.id, t.id⟩, t) (List.mem_append_right _ ?_)
    exact List.mem_flatMap.mpr ⟨f, hf, List.mem_map_of_mem ht⟩
  unfold records
  rw [hdistinctImports, hdistinctVars, hdistinctTables, hdistinctFunctions, hvars, htables, hfunctions]
  simp only [ok_bind]
  rw [Script.foldl_addFunction, Script.foldl_addTable, Script.foldl_addVariable, Script.foldl_addImport]
  refine congrArg Except.ok ?_
  change Script.mk (s.imports.records.foldl Registry.insert .empty)
    ((s.functions.records.map ScriptContainer.Function.unbound).foldl Registry.insert .empty)
    ((s.vars.records.filter fun v => v.scope != .temporary).foldl Registry.insert Script.new.vars)
    ((s.tables.records.map ScriptContainer.Table.unbound).foldl Registry.insert .empty) s.padding = _
  have himports : s.imports.records.foldl Registry.insert .empty = s.imports := s.imports.ofList_records
  have htables : (s.tables.records.map ScriptContainer.Table.unbound).foldl Registry.insert .empty =
      s.unbound.tables := s.unbound.tables.ofList_records
  have hfunctions :
      (s.functions.records.map ScriptContainer.Function.unbound).foldl Registry.insert .empty =
      s.unbound.functions := s.unbound.functions.ofList_records
  rw [himports, htables, hfunctions, h.foldl_vars]
  rfl

end Document

end ScriptContainer
