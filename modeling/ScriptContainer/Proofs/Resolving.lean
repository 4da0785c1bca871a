import ScriptContainer.Proofs.Binding
import ScriptContainer.Proofs.Buildable
import ScriptContainer.Proofs.ScopeChains
import ScriptContainer.Proofs.Spelling

/-!
# What lookups lead to

In a context whose functions are functions of its script, whatever is found is a record of the
script. So code that was bound in such a context, from numbers or from spellings, can be written for
every script that has these records.
-/

namespace ScriptContainer

lemma Registry.mem_of_lookup {α : Type} [Named α] {r : Registry α} {key : Key} {x : α}
    (h : r.lookup key = some x) : x ∈ r.records := by
  cases key with
  | id id => exact mem_of_get? h
  | name name => exact List.mem_of_find?_eq_some h

lemma Registry.isSome_get?_of_mem {α : Type} [Keyed α] {r : Registry α} {x : α}
    (h : x ∈ r.records) : (r.get? (Keyed.id x)).isSome = true := by
  rw [r.get?_of_mem h]
  rfl

namespace Script

variable {s : Script} {f : Function} {key : Key}

lemma has_of_findLabel (hf : f ∈ s.functions.records) {ref : LabelRef}
    (h : f.findLabel key = some ref) : s.has (.label ref) = true := by
  obtain ⟨l, hl, rfl⟩ := Option.map_eq_some_iff.mp h
  have hget : s.functions.get? f.id = some f := s.functions.get?_of_mem hf
  change ((s.functions.get? f.id).bind fun f => f.labels.get? l.id).isSome = true
  rw [hget]
  exact Registry.isSome_get?_of_mem (Registry.mem_of_lookup hl)

lemma has_of_ownVariable (hf : f ∈ s.functions.records) {ref : VarRef}
    (h : f.findVariable key = some ref) : s.has (.variable ref) = true := by
  obtain ⟨v, hv, rfl⟩ := Option.map_eq_some_iff.mp h
  have hget : s.functions.get? f.id = some f := s.functions.get?_of_mem hf
  change ((s.functions.get? f.id).bind fun f => f.vars.get? v.id).isSome = true
  rw [hget]
  exact Registry.isSome_get?_of_mem (Registry.mem_of_lookup hv)

lemma has_of_ownTable (hf : f ∈ s.functions.records) {ref : TableRef}
    (h : f.findTable key = some ref) : s.has (.table ref) = true := by
  obtain ⟨t, ht, rfl⟩ := Option.map_eq_some_iff.mp h
  have hget : s.functions.get? f.id = some f := s.functions.get?_of_mem hf
  change ((s.functions.get? f.id).bind fun f => f.tables.get? t.id).isSome = true
  rw [hget]
  exact Registry.isSome_get?_of_mem (Registry.mem_of_lookup ht)

lemma has_of_ownSymbol (hf : f ∈ s.functions.records) {symbol : Symbol}
    (h : f.findSymbol key = some symbol) : s.has symbol = true := by
  simp only [Function.findSymbol, Option.or_eq_some_iff, Option.map_eq_some_iff] at h
  obtain ⟨ref, href, rfl⟩ | ⟨-, ⟨ref, href, rfl⟩ | ⟨-, ref, href, rfl⟩⟩ := h
  · exact has_of_findLabel hf href
  · exact has_of_ownVariable hf href
  · exact has_of_ownTable hf href

lemma has_of_findVariable {ref : VarRef} (h : s.findVariable key = some ref) :
    s.has (.variable ref) = true := by
  obtain ⟨v, hv, rfl⟩ := Option.map_eq_some_iff.mp h
  exact Registry.isSome_get?_of_mem (Registry.mem_of_lookup hv)

lemma has_of_findTable {ref : TableRef} (h : s.findTable key = some ref) :
    s.has (.table ref) = true := by
  obtain ⟨t, ht, rfl⟩ := Option.map_eq_some_iff.mp h
  exact Registry.isSome_get?_of_mem (Registry.mem_of_lookup ht)

lemma has_of_findImport {id : RecordId} (h : s.findImport key = some id) :
    s.has (.imported id) = true := by
  obtain ⟨i, hi, rfl⟩ := Option.map_eq_some_iff.mp h
  change s.imports.contains i.id = true
  rw [Registry.contains_eq_isSome]
  exact Registry.isSome_get?_of_mem (Registry.mem_of_lookup hi)

lemma has_of_findFunction {id : RecordId} (h : s.findFunction key = some id) :
    s.has (.function id) = true := by
  obtain ⟨f, hf, rfl⟩ := Option.map_eq_some_iff.mp h
  change s.functions.contains f.id = true
  rw [Registry.contains_eq_isSome]
  exact Registry.isSome_get?_of_mem (Registry.mem_of_lookup hf)

lemma has_of_findSymbol {symbol : Symbol} (h : s.findSymbol key = some symbol) :
    s.has symbol = true := by
  simp only [findSymbol, Option.or_eq_some_iff, Option.map_eq_some_iff] at h
  obtain ⟨ref, href, rfl⟩ | ⟨-, ⟨id, hid, rfl⟩ | ⟨-, ⟨id, hid, rfl⟩ | ⟨-, ref, href, rfl⟩⟩⟩ := h
  · exact has_of_findTable href
  · exact has_of_findImport hid
  · exact has_of_findFunction hid
  · exact has_of_findVariable href

end Script

namespace Context

variable {ctx : Context} {key : Key}

/-- The functions that have been entered are functions of the script. -/
def IsScoped (ctx : Context) : Prop := ∀ f ∈ ctx.scopes, f ∈ ctx.script.functions.records

lemma orUnknown_eq_ok_iff {α : Type} {found : Option α} {kind : Sought} {x : α} :
    orUnknown found kind key = .ok x ↔ found = some x := by
  unfold orUnknown
  cases found <;> simp

lemma isScoped_new (s : Script) : (new s).IsScoped := List.forall_mem_nil _

namespace IsScoped

variable (h : ctx.IsScoped)
include h

lemma push {f : Function} (hf : f ∈ ctx.script.functions.records) : (ctx.push f).IsScoped :=
  List.forall_mem_cons.mpr ⟨hf, h⟩

lemma mem_of_firstIn {α : Type} {find : Function → Option α} {x : α}
    (hfound : firstIn ctx.scopes find = some x) :
    ∃ f ∈ ctx.script.functions.records, find f = some x := by
  obtain ⟨f, hf, hfind⟩ := List.exists_of_findSome?_eq_some hfound
  exact ⟨f, h f hf, hfind⟩

lemma resolve_has {symbol : Symbol} (hfound : ctx.resolve key = .ok symbol) :
    ctx.script.has symbol = true := by
  rcases Option.or_eq_some_iff.mp (orUnknown_eq_ok_iff.mp hfound) with hfirst | ⟨-, hscript⟩
  · obtain ⟨f, hf, hfind⟩ := h.mem_of_firstIn hfirst
    exact Script.has_of_ownSymbol hf hfind
  · exact Script.has_of_findSymbol hscript

lemma findVariable_has {ref : VarRef} (hfound : ctx.findVariable key = .ok ref) :
    ctx.script.has (.variable ref) = true := by
  rcases Option.or_eq_some_iff.mp (orUnknown_eq_ok_iff.mp hfound) with hfirst | ⟨-, hscript⟩
  · obtain ⟨f, hf, hfind⟩ := h.mem_of_firstIn hfirst
    exact Script.has_of_ownVariable hf hfind
  · exact Script.has_of_findVariable hscript

lemma findTable_has {ref : TableRef} (hfound : ctx.findTable key = .ok ref) :
    ctx.script.has (.table ref) = true := by
  rcases Option.or_eq_some_iff.mp (orUnknown_eq_ok_iff.mp hfound) with hfirst | ⟨-, hscript⟩
  · obtain ⟨f, hf, hfind⟩ := h.mem_of_firstIn hfirst
    exact Script.has_of_ownTable hf hfind
  · exact Script.has_of_findTable hscript

lemma findLabel_has {ref : LabelRef} (hfound : ctx.findLabel key = .ok ref) :
    ctx.script.has (.label ref) = true := by
  obtain ⟨f, hf, hfind⟩ := h.mem_of_firstIn (orUnknown_eq_ok_iff.mp hfound)
  exact Script.has_of_findLabel hf hfind

end IsScoped

lemma findCallee_has {callee : Callee} (hfound : ctx.findCallee key = .ok callee) :
    ctx.script.has callee.toSymbol = true := by
  have hfound := orUnknown_eq_ok_iff.mp hfound
  simp only [Option.or_eq_some_iff, Option.map_eq_some_iff] at hfound
  obtain ⟨id, hid, rfl⟩ | ⟨-, id, hid, rfl⟩ := hfound
  · exact Script.has_of_findImport hid
  · exact Script.has_of_findFunction hid

lemma findImport_has {id : RecordId} (hfound : ctx.findImport key = .ok id) :
    ctx.script.has (.imported id) = true :=
  Script.has_of_findImport (orUnknown_eq_ok_iff.mp hfound)

lemma findFunction_has {id : RecordId} (hfound : ctx.findFunction key = .ok id) :
    ctx.script.has (.function id) = true :=
  Script.has_of_findFunction (orUnknown_eq_ok_iff.mp hfound)

end Context

namespace Script

variable {s t : Script}

/-- The script has all records of the other one. -/
def Includes (t s : Script) : Prop := ∀ symbol, s.has symbol = true → t.has symbol = true

lemma Includes.refl (s : Script) : s.Includes s := fun _ h => h

lemma Includes.exists_check (h : t.Includes s) {symbol : Symbol} (hs : s.has symbol = true) :
    ∃ id, t.check symbol = .ok id :=
  ⟨symbol.id, if_pos (h symbol hs)⟩

/-- The instruction refers to records of the script: it can be written for every script that has
them. -/
def Binds (s : Script) (i : Instruction .bound) : Prop := ∀ t : Script, t.Includes s → t.Encodes i

end Script

namespace Context.IsScoped

variable {ctx : Context} {i : Instruction .bound}

lemma wordBinding_feeds (h : ctx.IsScoped) {t : Script} (ht : t.Includes ctx.script) :
    ctx.wordBinding.Feeds t.numbering where
  symbol hfound := ht.exists_check (h.resolve_has hfound)
  var hfound := ht.exists_check (h.findVariable_has hfound)
  table hfound := ht.exists_check (h.findTable_has hfound)
  label hfound := ht.exists_check (h.findLabel_has hfound)
  callee hfound := ht.exists_check (findCallee_has hfound)
  imported hfound := ht.exists_check (findImport_has hfound)
  function hfound := ht.exists_check (findFunction_has hfound)
  operator _ := ⟨_, rfl⟩

lemma binding_feeds (h : ctx.IsScoped) {t : Script} (ht : t.Includes ctx.script) :
    ctx.binding.Feeds t.numbering where
  symbol hfound := ht.exists_check (h.resolve_has (bySpelling_eq_ok_iff.mp hfound))
  var hfound := ht.exists_check (h.findVariable_has (bySpelling_eq_ok_iff.mp hfound))
  table hfound := ht.exists_check (h.findTable_has (bySpelling_eq_ok_iff.mp hfound))
  label hfound := ht.exists_check (h.findLabel_has (bySpelling_eq_ok_iff.mp hfound))
  callee hfound := ht.exists_check (findCallee_has (bySpelling_eq_ok_iff.mp hfound))
  imported hfound := ht.exists_check (findImport_has (bySpelling_eq_ok_iff.mp hfound))
  function hfound := ht.exists_check (findFunction_has (bySpelling_eq_ok_iff.mp hfound))
  operator _ := ⟨_, rfl⟩

theorem binds_of_change (h : ctx.IsScoped) {n : Instruction .spelled}
    (hn : n.change ctx.binding = .ok i) : ctx.script.Binds i := by
  intro t ht
  exact Script.encodes_iff.mpr (Instruction.exists_change (h.binding_feeds ht) hn)

end Context.IsScoped

lemma Script.isScoped_under (s : Script) (scopes : List RecordId) : (s.under scopes).IsScoped := by
  intro f hf
  obtain ⟨id, -, hget⟩ := List.mem_filterMap.mp (List.mem_reverse.mp hf)
  exact Registry.mem_of_get? hget

lemma Context.isScoped_ofCode {s : Script} (chains : Registry Chain) {f : Function}
    (hf : f ∈ s.functions.records) : (ofCode s chains f).IsScoped ∧ (ofCode s chains f).script = s := by
  unfold ofCode
  cases chains.get? f.id with
  | some chain =>
    dsimp only
    rw [ofChain_eq_under]
    exact ⟨s.isScoped_under chain.scopes, rfl⟩
  | none => exact ⟨(isScoped_new s).push hf, rfl⟩

end ScriptContainer
