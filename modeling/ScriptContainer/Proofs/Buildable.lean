import ScriptContainer.Proofs.Building
import ScriptContainer.Proofs.Keeping

/-!
# Which scripts can be built

Building asks for room for the code region, for the records to which code and tables refer, for
values of the declared types and, where this is wanted, for as many labels as label instructions.
Nothing else stops it, and a script that has been built still has all of this.
-/

namespace ScriptContainer

namespace Script

variable {s t laid after : Script} {options : Options} {roots : List Root} {stop : Nat}
  {built : Built} {i j : Instruction .bound}

/-- What building asks for. -/
structure Buildable (s : Script) (options : Options) : Prop where
  room : s.regionSize < UInt32.size
  code : ∀ f ∈ s.functions.records, ∀ i ∈ f.code, s.Encodes i
  tables : ∀ entry ∈ s.allTables, entry.2.Encodes s
  values : s.ValuesFit
  labels : ∀ f ∈ s.functions.records, f.checkLabels options = .ok ()

section Decidable

instance (s : Script) (i : Instruction .bound) : Decidable (s.Encodes i) :=
  match h : i.encode s with
  | .ok ws => isTrue ⟨ws, h⟩
  | .error _ => isFalse fun ⟨_, hws⟩ => by rw [h] at hws; cases hws

instance (s : Script) : (values : TableValues VarRef) →
    Decidable (∀ refs, values = .vars refs → ∀ ref ∈ refs, (s.var? ref).isSome = true)
  | .vars refs => decidable_of_iff (∀ ref ∈ refs, (s.var? ref).isSome = true)
      ⟨fun h _ he => TableValues.vars.inj he ▸ h, fun h => h refs rfl⟩
  | .ints _ | .floats _ | .bytes _ => isTrue fun _ he => by cases he

instance (s : Script) (t : Table) : Decidable (t.Encodes s) :=
  inferInstanceAs (Decidable (_ ∧ ∀ refs, t.values = .vars refs → _))

instance (s : Script) : Decidable s.ValuesFit :=
  inferInstanceAs (Decidable ((∀ f ∈ s.declared, _) ∧ _ ∧ _ ∧ _))

instance (options : Options) (f : Function) : Decidable (f.checkLabels options = .ok ()) :=
  decidable_of_iff ((f.checkLabels options).toBool = true) (by
    cases f.checkLabels options <;> simp [Except.toBool])

/-- Whether a script can be built may be found out without building it. -/
instance (s : Script) (options : Options) : Decidable (s.Buildable options) :=
  decidable_of_iff
    (s.regionSize < UInt32.size ∧ (∀ f ∈ s.functions.records, ∀ i ∈ f.code, s.Encodes i) ∧
      (∀ entry ∈ s.allTables, entry.2.Encodes s) ∧ s.ValuesFit ∧
      ∀ f ∈ s.functions.records, f.checkLabels options = .ok ())
    ⟨fun ⟨hroom, hcode, htables, hvalues, hlabels⟩ => ⟨hroom, hcode, htables, hvalues, hlabels⟩,
      fun h => ⟨h.room, h.code, h.tables, h.values, h.labels⟩⟩

end Decidable

lemma encodes_iff : s.Encodes i ↔ ∃ n, i.change s.numbering = .ok n := by
  constructor
  · rintro ⟨ws, hws⟩
    obtain ⟨n, hn, -⟩ := Instruction.encode_eq_ok_iff.mp hws
    exact ⟨n, hn⟩
  · rintro ⟨n, hn⟩
    exact ⟨n.words, Instruction.encode_eq_ok_iff.mpr ⟨n, hn, rfl⟩⟩

lemma Encodes.of_sameOutline (h : s.Encodes i) (hst : s.SameOutline t) : t.Encodes i := by
  rw [encodes_iff, hst.numbering_eq]
  exact encodes_iff.mp h

lemma Encodes.of_untargeted (h : s.Encodes i) (hj : j.untargeted = i.untargeted) : s.Encodes j := by
  obtain ⟨n, hn⟩ := encodes_iff.mp h
  have hchange : Instruction.untargeted <$> j.change s.numbering = .ok n.untargeted := by
    rw [← Instruction.change_untargeted, hj, Instruction.change_untargeted, hn]
    rfl
  obtain ⟨m, hm, -⟩ := map_eq_ok_iff.mp hchange
  exact encodes_iff.mpr ⟨m, hm⟩

lemma Encodes.isSome_body? (h : s.Encodes i) {callee : RecordId} (hspawn : i.spawned? = some callee) :
    (s.body? callee).isSome = true := by
  obtain ⟨n, hn⟩ := encodes_iff.mp h
  unfold Instruction.spawned? at hspawn
  obtain ⟨hthread, -⟩ | ⟨target, found, hthread, hfound, -⟩ := Instruction.threadCallee?_change hn
  · rw [hthread] at hspawn
    cases hspawn
  · rw [hthread] at hspawn
    cases target with
    | imported id => cases hspawn
    | function id =>
      obtain rfl := Option.some.inj hspawn
      change s.check (.function id) = .ok found at hfound
      unfold check at hfound
      split at hfound
      · rename_i hhas
        rw [body?, Option.isSome_map, ← Registry.contains_eq_isSome]
        exact hhas
      · cases hfound

namespace Retains

lemma var?_isSome (h : s.Retains t) (ref : VarRef) : (t.var? ref).isSome = (s.var? ref).isSome :=
  h.sameOutline.has_eq (.variable ref)

lemma regionSize (h : s.Retains t) : t.regionSize = s.regionSize := by
  have hcode : (t.functions.records.map fun f => codeSize f.code) =
      s.functions.records.map fun f => codeSize f.code :=
    map_eq_map_of_forall₂ (h.functions.flip.imp fun _ _ hfg => codeSize_of_untargeted hfg.code)
  have htables : (t.allTables.map fun entry => entry.2.filledSize) =
      s.allTables.map fun entry => entry.2.filledSize := by
    refine map_eq_map_of_forall₂ (h.allTables.flip.imp fun _ _ hentry => ?_)
    unfold Table.filledSize
    rw [hentry.2.values, hentry.2.type]
  unfold Script.regionSize tablesSize
  rw [hcode, htables]

lemma encodes (h : s.Retains t) {f g : Function} (hfg : f.Retains g)
    (hf : ∀ i ∈ f.code, s.Encodes i) : ∀ j ∈ g.code, t.Encodes j := by
  intro j hj
  obtain ⟨i, hi, hagree⟩ := hfg.exists_instruction hj
  exact ((hf i hi).of_sameOutline h.sameOutline).of_untargeted hagree

theorem buildable (h : s.Retains t) (hs : s.Buildable options) : t.Buildable options where
  room := by
    rw [h.regionSize]
    exact hs.room
  code := by
    intro g hg
    obtain ⟨f, hf, hfg⟩ := h.exists_source hg
    exact h.encodes hfg (hs.code f hf)
  tables := by
    intro entry hentry
    obtain ⟨before, hbefore, -, hretains⟩ := forall₂_exists_left h.allTables hentry
    obtain ⟨htype, hrefs⟩ := hs.tables before hbefore
    unfold Table.Encodes
    rw [hretains.values, hretains.type]
    refine ⟨htype, fun refs hvalues ref href => ?_⟩
    rw [h.var?_isSome]
    exact hrefs refs hvalues ref href
  values := h.valuesFit hs.values
  labels := by
    intro g hg
    obtain ⟨f, hf, hfg⟩ := h.exists_source hg
    have hsize : g.labels.size = f.labels.size := by
      have hlength := congrArg List.length hfg.labels
      rwa [List.length_map, List.length_map] at hlength
    exact Function.checkLabels_congr hfg.code hsize (hs.labels f hf)

end Retains

namespace Buildable

lemma starts (h : s.Buildable options) : LayOut.Starts s.body? := by
  intro id code hcode i hi callee hspawn
  obtain ⟨f, hf, rfl⟩ := Option.map_eq_some_iff.mp hcode
  exact (h.code f (Registry.mem_of_get? hf) i hi).isSome_body? hspawn

lemma encodesAll (h : s.Buildable options) (hs : s.Stands roots stop) : s.EncodesAll roots := by
  refine ⟨fun i hi => ?_, h.tables⟩
  obtain ⟨p, hp, hi⟩ := exists_plot_of_mem_forestCode 0 hi
  obtain ⟨f, hf, -, -, -, hcode⟩ := hs.holds p hp
  rw [← hcode] at hi
  exact h.code f (Registry.mem_of_get? hf) i hi

lemma exists_prepare (h : s.Buildable options) :
    ∃ first after, prepare options s = .ok first after := by
  obtain ⟨stop, laid, hlay⟩ := exists_assignOffsets h.starts h.room
  obtain ⟨forest, hlaid⟩ := (assignOffsets_outcome s).of_ok hlay
  obtain ⟨roots, hstands, -⟩ := hlaid.stands
  have hbuildable := hlaid.retains.buildable h
  have hall := hbuildable.encodesAll hstands
  have hopening := laid.opening_yields.eq_ok hbuildable.values
  have hfirst := (hstands.emit_yields (w := .empty) ⟨0, rfl⟩).eq_ok hall
  have hwritable : laid.Writable roots := ⟨hall.1, hall.2, hbuildable.values⟩
  have hfixups := hstands.applyFixups_outcome hwritable .empty options
  cases hfix : applyFixups (laid.written roots .empty).ends options laid with
  | error e after =>
    obtain ⟨f, hf, hcheck⟩ := hfixups.of_error hfix
    rw [hbuildable.labels f hf] at hcheck
    cases hcheck
  | ok _ after =>
    obtain ⟨written, hprepare⟩ := exists_prepare_of_emit hlay hopening hfirst hfix
    exact ⟨written, after, hprepare⟩

theorem exists_build (h : s.Buildable options) :
    ∃ built after, build options s = .ok built after := by
  obtain ⟨first, after, hprepare⟩ := h.exists_prepare
  obtain ⟨laid, roots, stop, hprepared, -⟩ := (prepare_outcome options s).of_ok hprepare
  obtain ⟨forest, hlaid⟩ := (assignOffsets_outcome s).of_ok hprepared.offsets
  have hafter := (hlaid.retains.trans (.of_untargeted hprepared.agrees)).buildable h
  have hstands := hprepared.standsAfter
  have hemit := (hstands.emit_yields (w := .empty) ⟨0, rfl⟩).eq_ok (hafter.encodesAll hstands)
  obtain ⟨built, hbuild⟩ := build_of_prepare hprepare hemit
  exact ⟨built, after, hbuild⟩

end Buildable

lemma LaidOut.length_eq (h : s.LaidOut roots stop after) : stop = s.regionSize := by
  have hsize : forestSize roots + s.pendingSize (forestIds roots ++ []) = s.pendingSize [] :=
    forestSize_add_pendingSize h.grows fun x => by simp
  have hnone : s.pendingSize (forestIds roots ++ []) = 0 := by
    unfold pendingSize pending
    rw [List.append_nil, List.filter_eq_nil_iff.mpr]
    · rfl
    · intro f hf
      have hmem : f.id ∈ forestIds roots := h.perm_ids.mem_iff.mpr (List.mem_map_of_mem hf)
      simpa using hmem
  rw [h.length, regionSize, ← pendingSize_nil, ← hsize, hnone, Nat.add_zero]

lemma IsBuilt.buildable (h : s.IsBuilt options laid roots stop built after) :
    s.Buildable options := by
  obtain ⟨forest, hlaid⟩ := (assignOffsets_outcome s).of_ok h.offsets
  have hretains := h.retains
  have hstands := h.standsAfter
  refine hretains.symm.buildable ⟨?_, ?_, h.writableAfter.tables, h.writableAfter.values, h.labels⟩
  · rw [hretains.regionSize, ← hlaid.length_eq]
    exact hlaid.fits
  · intro f hf i hi
    obtain ⟨p, hp, -, -, -, hcode⟩ := hstands.exists_plot hf
    rw [hcode] at hi
    exact h.writableAfter.code i
      (mem_forestCode_of_mem_plots hp (Nesting.mem_allCode_of_mem_code hi))

end Script

end ScriptContainer
