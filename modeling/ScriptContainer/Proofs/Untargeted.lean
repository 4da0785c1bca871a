import ScriptContainer.Fixup
import ScriptContainer.Proofs.Outcomes
import ScriptContainer.Proofs.Settling

/-!
# Scripts without targets

Setting targets and addresses changes nothing else of a script. Two scripts agree but for those if
they are the same once all targets and addresses are zero.
-/

namespace ScriptContainer

namespace Instruction

variable {S : Slots}

/-- The instruction with its jump targets zero. -/
def untargeted : Instruction S → Instruction S
  | .if condition _ unknown1 unknown2 => .if condition 0 unknown1 unknown2
  | .else _ => .else 0
  | .elseIf _ unknown1 condition _ unknown3 unknown4 =>
    .elseIf 0 unknown1 condition 0 unknown3 unknown4
  | .switch value _ _ => .switch value 0 0
  | .case value _ => .case value 0
  | .case2 value _ => .case2 value 0
  | .doWhile condition _ => .doWhile condition 0
  | other => other

@[simp] lemma size_untargeted (i : Instruction S) : i.untargeted.size = i.size := by
  cases i <;> rfl

@[simp] lemma opcode_untargeted (i : Instruction S) : i.untargeted.opcode = i.opcode := by
  cases i <;> rfl

@[simp] lemma spawned?_untargeted (i : Instruction .bound) :
    i.untargeted.spawned? = i.spawned? := by
  cases i <;> rfl

lemma untargeted_retarget (rest : List Placed) (i : Instruction .bound) :
    (i.retarget rest).untargeted = i.untargeted := by
  cases i <;> simp only [retarget] <;> (try split) <;> rfl

end Instruction

/-- The code with all jump targets zero. -/
def untargetedCode {S : Slots} (code : Body S) : Body S := code.map Instruction.untargeted

/-- The label with its address zero. -/
def Label.unaddressed (l : Label) : Label := { l with address := 0 }

lemma Label.id_unaddressed (l : Label) : Keyed.id l.unaddressed = Keyed.id l := rfl

/-- The labels with their addresses zero. -/
def unaddressedLabels (labels : Registry Label) : Registry Label :=
  labels.map Label.unaddressed Label.id_unaddressed

/-- The function with all targets and addresses zero. -/
def Function.untargeted (f : Function) : Function :=
  { f with labels := unaddressedLabels f.labels, code := untargetedCode f.code }

lemma Function.id_untargeted (f : Function) : f.untargeted.id = f.id := rfl

/-- The script with all targets and addresses zero. -/
def Script.untargeted (s : Script) : Script :=
  s.mapFunctions Function.untargeted Function.id_untargeted

lemma opcodes_of_untargeted {S : Slots} {code other : Body S}
    (h : untargetedCode code = untargetedCode other) :
    code.map Instruction.opcode = other.map Instruction.opcode := by
  have hopcodes := congrArg (List.map Instruction.opcode) h
  simpa only [untargetedCode, List.map_map, Function.comp_def, Instruction.opcode_untargeted]
    using hopcodes

lemma countP_isLabel {code other : Body .bound} (h : untargetedCode code = untargetedCode other) :
    code.countP Instruction.isLabel = other.countP Instruction.isLabel := by
  have hopcode (code : Body .bound) :
      code.countP Instruction.isLabel = (code.map Instruction.opcode).countP (· == .label) := by
    rw [List.countP_map]
    rfl
  rw [hopcode, hopcode, opcodes_of_untargeted h]

lemma length_of_untargeted {S : Slots} {code other : Body S}
    (h : untargetedCode code = untargetedCode other) : code.length = other.length := by
  have hlengths := congrArg List.length h
  rwa [untargetedCode, untargetedCode, List.length_map, List.length_map] at hlengths

lemma codeSize_of_untargeted {S : Slots} {code other : Body S}
    (h : untargetedCode code = untargetedCode other) : codeSize code = codeSize other := by
  have hsizes := congrArg (List.map Instruction.size) h
  simp only [untargetedCode, List.map_map, Function.comp_def, Instruction.size_untargeted] at hsizes
  exact congrArg List.sum hsizes

lemma Placed.map_instruction_zipWith {code : Body .bound} {ends : List UInt32}
    (h : ends.length = code.length) : (code.zipWith mk ends).map instruction = code := by
  have hzip := List.map_fst_zip h.ge
  rw [List.zip, List.map_zipWith] at hzip
  rw [List.map_zipWith]
  exact hzip

lemma untargetedCode_retargetAll (placed : List Placed) :
    untargetedCode (Placed.retargetAll placed) =
      untargetedCode (placed.map Placed.instruction) := by
  induction placed with
  | nil => rfl
  | cons p rest ih =>
    unfold untargetedCode at *
    rw [Placed.retargetAll, List.map_cons, List.map_cons, List.map_cons, ih,
      Instruction.untargeted_retarget]

lemma unaddressedLabels_replace {labels : Registry Label} {l : Label} (address : UInt32)
    (h : ((unaddressedLabels labels).get? l.id) = some l.unaddressed) :
    unaddressedLabels (labels.replace { l with address }) = unaddressedLabels labels := by
  refine Registry.map_replace fun x hx hid => ?_
  have hid : x.id = l.id := hid
  have hget : labels.get? x.id = some x := labels.get?_of_mem hx
  rw [hid] at hget
  rw [unaddressedLabels, Registry.get?_map, hget] at h
  exact (Option.some.inj h).symm

lemma unaddressedLabels_addressLabels (labels : Registry Label) (ends : List UInt32) :
    unaddressedLabels (Function.addressLabels labels ends) = unaddressedLabels labels := by
  have key (pairs : List (Label × UInt32)) (hpairs : ∀ pair ∈ pairs, pair.1 ∈ labels.records)
      (current : Registry Label) (h : unaddressedLabels current = unaddressedLabels labels) :
      unaddressedLabels (pairs.foldl (fun labels pair =>
        labels.replace { pair.1 with address := pair.2 / 4 }) current) =
        unaddressedLabels labels := by
    induction pairs generalizing current with
    | nil => exact h
    | cons pair pairs ih =>
      rw [List.forall_mem_cons] at hpairs
      refine ih hpairs.2 _ ?_
      rw [unaddressedLabels_replace, h]
      rw [h, unaddressedLabels, Registry.get?_map,
        show labels.get? pair.1.id = some pair.1 from labels.get?_of_mem hpairs.1]
      rfl
  refine key _ (fun pair hpair => ?_) labels rfl
  exact List.mem_reverse.mp (List.of_mem_zip hpair).1

/-- A disagreement of labels and label instructions. -/
def Error.IsLabelCount (e : Error) : Prop :=
  ∃ offset function markers labels, e = .malformed offset (.labelCount function markers labels)

namespace Function

variable {options : Options} {f : Function} {ends : List UInt32}

lemma checkLabels_yields (options : Options) (f : Function) :
    Yields (f.checkLabels options) (fun _ => True) Error.IsLabelCount := by
  unfold checkLabels
  dsimp only
  split
  · exact ⟨_, _, _, _, rfl⟩
  · trivial

lemma checkLabels_eq_ok_iff : f.checkLabels options = .ok () ↔
    (options.strictLabels = true → f.code.countP Instruction.isLabel = f.labels.size) := by
  unfold checkLabels
  dsimp only
  rw [List.countP_eq_length_filter]
  split <;> simp_all

lemma checkLabels_congr {g : Function} (hcode : untargetedCode g.code = untargetedCode f.code)
    (hlabels : g.labels.size = f.labels.size) (h : f.checkLabels options = .ok ()) :
    g.checkLabels options = .ok () := by
  rw [checkLabels_eq_ok_iff, countP_isLabel hcode, hlabels]
  exact checkLabels_eq_ok_iff.mp h

lemma checkLabels_of_untargeted {g : Function} (hg : g.untargeted = f.untargeted)
    (h : f.checkLabels options = .ok ()) : g.checkLabels options = .ok () := by
  have hsize := congrArg (fun f => f.labels.size) hg
  simp only [untargeted, unaddressedLabels, Registry.size_map] at hsize
  exact checkLabels_congr (congrArg Function.code hg) hsize h

lemma fix_yields (options : Options) (h : ends.length = f.code.length) :
    Yields (f.fix options ends)
      (fun fixed => fixed.untargeted = f.untargeted ∧ f.checkLabels options = .ok ())
      (fun e => f.checkLabels options = .error e) := by
  unfold fix
  rw [if_neg (not_not.mpr h)]
  cases hcheck : f.checkLabels options with
  | error e => exact rfl
  | ok =>
  refine ⟨?_, rfl⟩
  have hcode := untargetedCode_retargetAll (f.code.zipWith Placed.mk ends)
  rw [Placed.map_instruction_zipWith h] at hcode
  change Function.untargeted _ = _
  simp only [untargeted, unaddressedLabels_addressLabels, hcode]

end Function

namespace Script

variable {s t : Script} {options : Options} {ends : Registry Ends}

lemma get?_untargeted (s : Script) (id : RecordId) :
    s.untargeted.functions.get? id = (s.functions.get? id).map Function.untargeted := by
  rw [untargeted, functions_mapFunctions, Registry.get?_map]

/-- Scripts that agree but for targets and addresses agree outside their functions. -/
lemma rest_eq_of_untargeted (h : t.untargeted = s.untargeted) :
    t.imports = s.imports ∧ t.vars = s.vars ∧ t.tables = s.tables ∧ t.padding = s.padding := by
  have hrest {α : Type} (field : Script → α) : field t.untargeted = field s.untargeted :=
    congrArg field h
  exact ⟨hrest imports, hrest vars, hrest tables, hrest padding⟩

lemma untargeted_replace {f fixed : Function} (hf : f ∈ s.functions.records)
    (hfixed : fixed.untargeted = f.untargeted) (ht : t.untargeted = s.untargeted) :
    untargeted { t with functions := t.functions.replace fixed } = s.untargeted := by
  rw [← ht]
  have hid : fixed.untargeted.id = f.untargeted.id := congrArg Function.id hfixed
  rw [Function.id_untargeted, Function.id_untargeted] at hid
  have hheld : (t.functions.get? f.id).map Function.untargeted = some f.untargeted := by
    rw [← get?_untargeted, ht, get?_untargeted, show s.functions.get? f.id = some f from
      s.functions.get?_of_mem hf]
    rfl
  have hfunctions : (t.functions.replace fixed).map Function.untargeted Function.id_untargeted =
      t.functions.map Function.untargeted Function.id_untargeted := by
    refine Registry.map_replace fun x hx hx' => ?_
    have hx' : x.id = f.id := Eq.trans hx' hid
    have hget : t.functions.get? x.id = some x := t.functions.get?_of_mem hx
    rw [← hx', hget] at hheld
    exact hfixed.trans (Option.some.inj hheld).symm
  unfold untargeted mapFunctions
  rw [hfunctions]

/-- Set the targets and addresses of a function with recorded ends. -/
def fixFunction (ends : Registry Ends) (options : Options) (f : Function) : Edit Unit := do
  match ends.get? f.id with
  | none => return ()
  | some found =>
    match f.fix options found.offsets with
    | .ok fixed => modify fun s => { s with functions := s.functions.replace fixed }
    | .error e => throw e

lemma fixFunction_outcome {f : Function} (hf : f ∈ s.functions.records)
    (h : ∀ found, ends.get? f.id = some found → found.offsets.length = f.code.length)
    (ht : t.untargeted = s.untargeted) :
    Outcome (fixFunction ends options f t)
      (fun _ after => after.untargeted = s.untargeted ∧
        ((ends.get? f.id).isSome → f.checkLabels options = .ok ()))
      (fun e => f.checkLabels options = .error e) := by
  unfold fixFunction
  cases hends : ends.get? f.id with
  | none => exact ⟨ht, fun h => by cases h⟩
  | some found =>
    have hfix := f.fix_yields options (h found hends)
    dsimp only
    cases hrun : f.fix options found.offsets with
    | error e => exact hfix.of_error hrun
    | ok fixed =>
      obtain ⟨hfixed, hcheck⟩ := hfix.of_ok hrun
      exact ⟨untargeted_replace hf hfixed ht, fun _ => hcheck⟩

/-- Setting targets and addresses changes only them. It fails only where the labels of a function
disagree with its label instructions. -/
theorem applyFixups_outcome
    (h : ∀ f ∈ s.functions.records, ∀ found, ends.get? f.id = some found →
      found.offsets.length = f.code.length) :
    Outcome (applyFixups ends options s)
      (fun _ after => after.untargeted = s.untargeted ∧
        ∀ f ∈ s.functions.records, (ends.get? f.id).isSome → f.checkLabels options = .ok ())
      (fun e => ∃ f ∈ s.functions.records, f.checkLabels options = .error e) := by
  have hall (fs : List Function) (hfs : ∀ f ∈ fs, f ∈ s.functions.records) (t : Script)
      (ht : t.untargeted = s.untargeted) :
      Outcome (fs.forM (fixFunction ends options) t)
        (fun _ after => after.untargeted = s.untargeted ∧
          ∀ f ∈ fs, (ends.get? f.id).isSome → f.checkLabels options = .ok ())
        (fun e => ∃ f ∈ s.functions.records, f.checkLabels options = .error e) := by
    induction fs generalizing t with
    | nil => exact ⟨ht, fun _ h => by cases h⟩
    | cons f fs ih =>
      rw [List.forall_mem_cons] at hfs
      change Outcome ((fixFunction ends options f >>= fun _ =>
        fs.forM (fixFunction ends options)) t) _ _
      refine Outcome.bind ((fixFunction_outcome hfs.1 (h f hfs.1) ht).mono (fun _ _ h => h)
        fun e he => ⟨f, hfs.1, he⟩) fun _ next hnext => ?_
      refine (ih hfs.2 next hnext.1).mono ?_ fun _ h => h
      intro _ after hafter
      exact ⟨hafter.1, List.forall_mem_cons.mpr ⟨hnext.2, hafter.2⟩⟩
  unfold applyFixups
  rw [bind_of_ok (rfl : (get : Edit Script) s = .ok s s)]
  refine (hall _ (fun f hf => List.mem_reverse.mp hf) s rfl).mono ?_ fun _ h => h
  intro _ after hafter
  exact ⟨hafter.1, fun f hf => hafter.2 f (List.mem_reverse.mpr hf)⟩

end Script

end ScriptContainer
