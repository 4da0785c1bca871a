import ScriptContainer.Proofs.Blanks

/-!
# Documents are bound to their records

The references of a document are looked up among the records that it declares. Each step puts code
into a function, or variables into a table of variables, that refer to these records.
-/

namespace ScriptContainer

lemma Function.id_foldl_addVariable (vs : List Variable) (f : Function) :
    (vs.foldl addVariable f).id = f.id := by
  induction vs generalizing f with
  | nil => rfl
  | cons v vs ih => exact ih (f.addVariable v)

namespace Document

lemma nodup_of_requireDistinct {kind : RecordKind} {ids seen : List RecordId}
    (h : requireDistinct kind seen ids = .ok ()) : ids.Nodup ∧ ∀ id ∈ ids, id ∉ seen := by
  induction ids generalizing seen with
  | nil => exact ⟨.nil, List.forall_mem_nil _⟩
  | cons id ids ih =>
    unfold requireDistinct at h
    split at h
    · cases h
    case isFalse hnew =>
      obtain ⟨hnodup, hothers⟩ := ih h
      have hid : id ∉ ids := fun hmem => hothers id hmem List.mem_cons_self
      refine ⟨List.nodup_cons.mpr ⟨hid, hnodup⟩, List.forall_mem_cons.mpr ⟨by simpa using hnew, ?_⟩⟩
      exact fun other hmem hseen => hothers other hmem (List.mem_cons_of_mem _ hseen)

lemma get?_toRecord {ts : List Table} (hn : (ts.map Table.id).Nodup)
    (r : Registry ScriptContainer.Table) {t : Table} (ht : t ∈ ts) :
    ((ts.map Table.toRecord).foldl Registry.insert r).get? t.id = some t.toRecord := by
  have hids : ((ts.map Table.toRecord).map Keyed.id).Nodup := by
    rw [List.map_map]
    exact hn
  exact Registry.get?_foldl_insert_of_mem hids r (List.mem_map_of_mem ht)

lemma Function.id_toRecord {f : Function} {r : ScriptContainer.Function} (hr : f.toRecord = .ok r) :
    r.id = f.id ∧ ∀ t ∈ f.tables, r.tables.get? t.id = some t.toRecord := by
  unfold toRecord at hr
  obtain ⟨_, -, hr⟩ := bind_eq_ok_iff.mp hr
  obtain ⟨_, hdistinct, hr⟩ := bind_eq_ok_iff.mp hr
  obtain ⟨_, -, hr⟩ := bind_eq_ok_iff.mp hr
  obtain ⟨vars, -, hr⟩ := bind_eq_ok_iff.mp hr
  obtain rfl := pure_eq_ok_iff.mp hr
  rw [ScriptContainer.Function.foldl_addLabel, ScriptContainer.Function.foldl_addTable]
  constructor
  · exact ScriptContainer.Function.id_foldl_addVariable vars _
  · exact fun t ht => get?_toRecord (nodup_of_requireDistinct hdistinct).1 _ ht

lemma table?_records {d : Document} {s : Script} (hs : d.records = .ok s) :
    (∀ t ∈ d.tables, s.table? ⟨.script, t.id⟩ = some t.toRecord) ∧
      ∀ f ∈ d.functions, ∀ t ∈ f.tables, s.table? ⟨.function f.id, t.id⟩ = some t.toRecord := by
  unfold records at hs
  obtain ⟨_, -, hs⟩ := bind_eq_ok_iff.mp hs
  obtain ⟨_, -, hs⟩ := bind_eq_ok_iff.mp hs
  obtain ⟨_, htables, hs⟩ := bind_eq_ok_iff.mp hs
  obtain ⟨_, hdistinct, hs⟩ := bind_eq_ok_iff.mp hs
  obtain ⟨vars, -, hs⟩ := bind_eq_ok_iff.mp hs
  obtain ⟨functions, hfunctions, hs⟩ := bind_eq_ok_iff.mp hs
  obtain rfl := pure_eq_ok_iff.mp hs
  rw [Script.foldl_addFunction, Script.foldl_addTable]
  constructor
  · exact fun t ht => get?_toRecord (nodup_of_requireDistinct htables).1 _ ht
  · intro f hf t ht
    have hrecords : List.Forall₂ (fun doc r => doc.toRecord = .ok r) d.functions functions :=
      mapM_eq_ok_iff.mp hfunctions
    have hids : functions.map Keyed.id = d.functions.map Function.id :=
      map_eq_map_of_forall₂ (hrecords.flip.imp fun _ _ hr => (Function.id_toRecord hr).1)
    have hnodup : (functions.map Keyed.id).Nodup := by
      rw [hids]
      exact (nodup_of_requireDistinct hdistinct).1
    obtain ⟨r, hr, htoRecord⟩ := forall₂_exists_right hrecords hf
    obtain ⟨hid, hget⟩ := Function.id_toRecord htoRecord
    have hfound := Registry.get?_foldl_insert_of_mem hnodup (vars.foldl Script.addVariable
      (d.imports.foldl Script.addImport Script.new)).functions hr
    change (Registry.get? _ f.id).bind _ = _
    rw [← hid]
    exact (congrArg (Option.bind · _) hfound).trans (hget t ht)

section Bind

variable {records s u : Script}

lemma bindTable_restsOn (h : s.RestsOn records) {ctx : Context} (hscoped : ctx.IsScoped)
    (hscript : ctx.script = records) {owner : Owner} {t : Table}
    (ht : records.table? ⟨owner, t.id⟩ = some t.toRecord) (hu : bindTable ctx owner s t = .ok u) :
    u.RestsOn records := by
  unfold bindTable at hu
  split at hu
  case h_2 => exact Except.ok.inj hu ▸ h
  case h_1 texts hvalues =>
    obtain ⟨refs, hrefs, hu⟩ := bind_eq_ok_iff.mp hu
    have hfound : ∀ ref ∈ refs, (records.var? ref).isSome = true := by
      intro ref href
      obtain ⟨text, -, htext⟩ := exists_of_mem_mapM hrefs href
      have hhas := hscoped.findVariable_has (Context.bySpelling_eq_ok_iff.mp htext)
      rwa [hscript] at hhas
    split at hu
    case h_2 => exact pure_eq_ok_iff.mp hu ▸ h
    case h_1 found hget =>
      obtain rfl := pure_eq_ok_iff.mp hu
      -- The table may have been replaced before, but its type is still that of its record.
      have hsame : found.type = t.toRecord.type := by
        obtain ⟨y, hy, htype⟩ := Script.exists_of_tableTypes h.types hget
        rw [← htype, Option.some.inj (hy.symm.trans ht)]
      have htype : t.toRecord.type = .variable := by
        rw [Table.toRecord, hvalues]
        rfl
      refine h.replaceTable (y := { found with length := UInt32.ofNat refs.length, values := .vars refs })
        hget rfl rfl ⟨?_, fun other hother => TableValues.vars.inj hother ▸ hfound⟩
      change ElementType.variable = found.type
      rw [hsame, htype]

lemma bindFunction_restsOn (h : s.RestsOn records) {chains : Registry Chain} {f : Function}
    (htables : ∀ t ∈ f.tables, records.table? ⟨.function f.id, t.id⟩ = some t.toRecord)
    (hu : bindFunction records chains s f = .ok u) : u.RestsOn records := by
  unfold bindFunction at hu
  split at hu
  case h_1 => exact Except.ok.inj hu ▸ h
  case h_2 record hrecord =>
    have hmem : record ∈ records.functions.records := Registry.mem_of_get? hrecord
    obtain ⟨t, ht, hu⟩ := bind_eq_ok_iff.mp hu
    obtain ⟨code, hcode, hu⟩ := bind_eq_ok_iff.mp hu
    obtain rfl := pure_eq_ok_iff.mp hu
    have hown : (Context.push (.new records) record).IsScoped := (Context.isScoped_new records).push hmem
    have ht : t.RestsOn records :=
      foldlM_keeps (fun x hx _ _ hs => bindTable_restsOn hs hown rfl (htables x hx)) h ht
    have hbound : ∀ i ∈ code, records.Binds i := by
      intro i hi
      obtain ⟨instruction, -, hi⟩ := exists_of_mem_mapM hcode hi
      obtain ⟨hscoped, hscript⟩ := Context.isScoped_ofCode chains hmem
      have hbinds := hscoped.binds_of_change hi
      rwa [hscript] at hbinds
    rw [Script.modifyFunction_eq]
    case hf => exact fun _ => rfl
    apply ht.mapFunctions
    · intro x
      split
      · rfl
      · rfl
    · intro x hx i hi
      split at hi
      · exact hbound i hi
      · exact ht.code x hx i hi

end Bind

theorem toScript_restsOn {d : Document} {s : Script} (hs : d.toScript = .ok s) :
    ∃ records, d.records = .ok records ∧ s.RestsOn records := by
  obtain ⟨records, hrecords, hs⟩ := bind_eq_ok_iff.mp hs
  obtain ⟨t, ht, hs⟩ := bind_eq_ok_iff.mp hs
  obtain ⟨htables, howned⟩ := table?_records hrecords
  have hnew := Context.isScoped_new records
  have ht : t.RestsOn records :=
    foldlM_keeps (fun x hx _ _ h => bindTable_restsOn h hnew rfl (htables x hx))
      (isBlank_records hrecords).restsOn ht
  refine ⟨records, hrecords, ?_⟩
  exact foldlM_keeps (fun f hf _ _ h => bindFunction_restsOn h (howned f hf)) ht hs

end Document

end ScriptContainer
