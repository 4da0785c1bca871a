import ScriptContainer.Proofs.DeclaredPart
import ScriptContainer.Proofs.ReadingTables
import ScriptContainer.Proofs.Retaining

/-!
# Kept references

A reference is kept if its number, looked up in the scopes under which its code stands, means the
same record again. Code whose references are kept is read as it is.
-/

namespace ScriptContainer

namespace Instruction

variable {S T : Slots}

lemma change_untargeted (f : S.Change T (Except Error)) (i : Instruction S) :
    i.untargeted.change f = untargeted <$> i.change f := by
  cases i <;> simp only [untargeted, change, map_pure, map_bind, Functor.map_map]

lemma change_eq_self_of_untargeted {f : S.Change S (Except Error)} {i j : Instruction S}
    (h : j.untargeted = i.untargeted) (hi : i.change f = .ok i) : j.change f = .ok j := by
  have hj : j.untargeted.change f = .ok j.untargeted := by
    rw [h, change_untargeted, hi]
    rfl
  cases j with
  | «if» | elseIf | switch | case | case2 | doWhile =>
    simp only [untargeted, change, bind_eq_ok_iff, pure_eq_ok_iff] at hj ⊢
    obtain ⟨operand, hoperand, he⟩ := hj
    cases he
    exact ⟨_, hoperand, rfl⟩
  | «else» => rfl
  | _ => exact hj

lemma isClear_untargeted (n : Instruction .numbered) : n.untargeted.isClear = n.isClear := by
  cases n <;> rfl

end Instruction

/-- The script with the functions of these ids entered, the first one outermost. -/
def Script.under (s : Script) (scopes : List RecordId) : Context :=
  { Context.new s with scopes := (scopes.filterMap fun id => s.functions.get? id).reverse }

/-- Every reference of the instruction is found again by its number in these scopes. -/
def Script.Keeps (s : Script) (scopes : List RecordId) (i : Instruction .bound) : Prop :=
  i.change (s.under scopes).rebinding = .ok i

/-- The functions whose scopes a table sees. -/
def Owner.scopes : Owner → List RecordId
  | .script => []
  | .function id => [id]

/-- Every reference is kept, those of code in the scopes under which the code stands and those of
tables in the scope of the owner. -/
structure Script.KeepsReferences (s : Script) (chains : Registry Chain) : Prop where
  code : ∀ f ∈ s.functions.records, ∀ chain, chains.get? f.id = some chain →
    ∀ i ∈ f.code, s.Keeps chain.scopes i
  tables : ∀ entry ∈ s.allTables, ∀ refs, entry.2.values = .vars refs →
    ∀ ref ∈ refs, (s.under entry.1.owner.scopes).findVariable (.id ref.id) = .ok ref

/-- No word of the code can be taken for another one. -/
def Script.IsClear (s : Script) : Prop :=
  ∀ f ∈ s.functions.records, ∀ i ∈ f.code, ∀ n, i.change s.numbering = .ok n → n.isClear

namespace Script

variable {s t : Script} {scopes : List RecordId} {i j : Instruction .bound}

lemma SameOutline.under (h : s.SameOutline t) (scopes : List RecordId) :
    (s.under scopes).SameOutline (t.under scopes) := by
  refine ⟨h, ?_⟩
  simp only [Script.under, List.map_reverse, List.map_filterMap, h.functions]

lemma under_append {id : RecordId} {f : Function} (hf : s.functions.get? id = some f) :
    s.under (scopes ++ [id]) = (s.under scopes).push f := by
  simp only [under, Context.push, List.filterMap_append, List.filterMap_cons, hf,
    List.filterMap_nil, List.reverse_append, List.reverse_singleton, List.singleton_append]

lemma under_of_none {id : RecordId} (hid : s.functions.get? id = none) :
    s.under (scopes ++ [id]) = s.under scopes := by
  simp only [under, List.filterMap_append, List.filterMap_cons, hid, List.filterMap_nil,
    List.append_nil]

lemma Keeps.of_sameOutline (h : s.Keeps scopes i) (hst : s.SameOutline t) : t.Keeps scopes i := by
  unfold Keeps
  rw [(hst.under scopes).rebinding_eq]
  exact h

lemma Keeps.of_untargeted (h : s.Keeps scopes i) (hj : j.untargeted = i.untargeted) :
    s.Keeps scopes j :=
  Instruction.change_eq_self_of_untargeted hj h

lemma KeepsCallee.of_change {ctx : Context} (h : i.change ctx.rebinding = .ok i) :
    ctx.script.KeepsCallee i := by
  intro callee hcallee found hfound
  rcases Instruction.threadCallee?_change h with ⟨hi, -⟩ | ⟨callee', found', hi, hfound', hi'⟩
  · rw [hcallee] at hi
    cases hi
  · obtain rfl := Option.some.inj (hcallee.symm.trans hi)
    obtain rfl := Option.some.inj (hcallee.symm.trans hi')
    exact Except.ok.inj (hfound.symm.trans hfound')

lemma IsClear.spells (h : s.IsClear) (hst : s.SameOutline t) {f : Function}
    (hf : f ∈ s.functions.records) (hi : i ∈ f.code) (hj : j.untargeted = i.untargeted)
    (hencodes : t.Encodes j) : t.Spells j := by
  obtain ⟨ws, hws⟩ := hencodes
  obtain ⟨n, hn, -⟩ := Instruction.encode_eq_ok_iff.mp hws
  refine ⟨n, hn, ?_⟩
  have hchange : i.untargeted.change s.numbering = .ok n.untargeted := by
    rw [← hst.numbering_eq, ← hj, Instruction.change_untargeted, hn]
    rfl
  rw [Instruction.change_untargeted] at hchange
  obtain ⟨m, hm, hmn⟩ := map_eq_ok_iff.mp hchange
  rw [← n.isClear_untargeted, ← hmn, m.isClear_untargeted]
  exact h f hf i hi m hm

end Script

/-- The code of functions inside, each after the functions inside it. -/
def Nesting.bodies : Nesting → List (RecordId × Body .bound)
  | done => []
  | step _ rest => rest.bodies
  | host _ id inner rest => inner.bodies ++ (id, inner.code) :: rest.bodies

lemma Nesting.map_fst_bodies (n : Nesting) : (n.bodies.map Prod.fst).Perm n.ids := by
  induction n with
  | done => exact .refl _
  | step i rest ih => exact ih
  | host i id inner rest ihi ihr =>
    rw [bodies, List.map_append, List.map_cons, ids]
    exact List.perm_middle.trans ((ihi.append ihr).cons id)

/-- Under these chains the references of code are kept. -/
def Script.KeepsUnder (s : Script) (body? : RecordId → Option (Body .bound)) (chains : List Chain) :
    Prop :=
  ∀ chain ∈ chains, ∀ code, body? chain.function = some code → ∀ i ∈ code, s.Keeps chain.scopes i

section Reading

variable {s : Script} {body? : RecordId → Option (Body .bound)} {seen : RecordId → Prop}
  {scopes : List RecordId} {ctx : Context}

lemma Script.Keeps.change {i : Instruction .bound} (h : s.Keeps scopes i)
    (hctx : (s.under scopes).SameOutline ctx) : i.change ctx.rebinding = .ok i := by
  rw [hctx.rebinding_eq]
  exact h

lemma Script.Keeps.isSome_of_spawned? {i : Instruction .bound} (h : s.Keeps scopes i) {id : RecordId}
    (hspawn : i.spawned? = some id) : (s.functions.get? id).isSome := by
  have hcallee : (s.under scopes).script.KeepsCallee i := .of_change h
  exact hcallee.isSome_of_spawned? h hspawn

lemma Nesting.read_of_keeps {n : Nesting} (hproper : n.Proper body? seen)
    (hctx : (s.under scopes).SameOutline ctx) (hself : ∀ i ∈ n.code, s.Keeps scopes i)
    (hinside : s.KeepsUnder body? (n.chains scopes)) : n.read ctx = .ok (n.code, n.bodies) := by
  induction n generalizing seen scopes ctx with
  | done => rfl
  | step i rest ih =>
    rw [code, List.forall_mem_cons] at hself
    rw [read, hself.1.change hctx, ok_bind, ih hproper.2 hctx hself.2 hinside]
    rfl
  | host i id inner rest ihi ihr =>
    obtain ⟨hspawn, -, hbody, hinner, hrest⟩ := hproper
    rw [code, List.forall_mem_cons] at hself
    rw [chains, Script.KeepsUnder, List.forall_mem_cons, List.forall_mem_append] at hinside
    obtain ⟨f, hf⟩ := Option.isSome_iff_exists.mp (hself.1.isSome_of_spawned? hspawn)
    obtain ⟨g, hg, hgf⟩ := hctx.script.exists_function hf
    have hentered : (s.under (scopes ++ [id])).SameOutline (ctx.push g) := by
      rw [Script.under_append hf]
      exact hctx.push hgf
    have hbodyKept : ∀ i ∈ inner.code, s.Keeps (scopes ++ [id]) i :=
      hinside.1 inner.code hbody
    rw [read, hself.1.change hctx, ok_bind, Script.requireFunction_of_get? hg, ok_bind,
      ihi hinner hentered hbodyKept hinside.2.1, ok_bind,
      ihr hrest hctx hself.2 hinside.2.2]
    rfl

lemma Nesting.keepsCallee_of_keeps {n : Nesting} (hproper : n.Proper body? seen)
    (hctx : s.SameOutline ctx.script) (hself : ∀ i ∈ n.code, s.Keeps scopes i)
    (hinside : s.KeepsUnder body? (n.chains scopes)) :
    ∀ i ∈ n.allCode, ctx.script.KeepsCallee i := by
  have hkept {i : Instruction .bound} {scopes : List RecordId} (hi : s.Keeps scopes i) :
      ctx.script.KeepsCallee i := by
    have hcallee : (ctx.script.under scopes).script.KeepsCallee i :=
      .of_change (hi.change (hctx.under scopes))
    exact hcallee
  induction n generalizing seen scopes with
  | done => exact fun _ hi => absurd hi List.not_mem_nil
  | step i rest ih =>
    rw [code, List.forall_mem_cons] at hself
    exact List.forall_mem_cons.mpr ⟨hkept hself.1, ih hproper.2 hself.2 hinside⟩
  | host i id inner rest ihi ihr =>
    obtain ⟨-, -, hbody, hinner, hrest⟩ := hproper
    rw [code, List.forall_mem_cons] at hself
    rw [chains, Script.KeepsUnder, List.forall_mem_cons, List.forall_mem_append] at hinside
    refine List.forall_mem_cons.mpr ⟨hkept hself.1, List.forall_mem_append.mpr ⟨?_, ?_⟩⟩
    · exact ihi hinner (hinside.1 inner.code hbody) hinside.2.1
    · exact ihr hrest hself.2 hinside.2.2

/-- The bodies of the functions of roots, in the order of their ends. -/
def forestBodies (roots : List Root) : List (RecordId × Body .bound) :=
  roots.flatMap fun root => root.nesting.bodies ++ [(root.id, root.nesting.code)]

/-- The roots whose functions the script has. -/
def Script.rootsHeld (s : Script) (roots : List Root) : List Root :=
  roots.filter fun root => (s.functions.get? root.id).isSome

/-- Roots whose references are kept are read as they are. -/
lemma forestRead_of_keeps {tail schedule : List Scheduled} {start : Nat} {roots : List Root}
    (h : Follows body? tail seen start schedule roots) (hctx : (s.under []).SameOutline ctx)
    (hkeeps : s.KeepsUnder body? (forestChains roots)) :
    Walking.forestRead ctx roots = .ok (forestBodies (s.rootsHeld roots)) := by
  induction h with
  | done => rfl
  | skip _ _ ih => exact ih hkeeps
  | @root seen start root rest roots _ hbody hproper _ ih =>
    rw [forestChains, List.flatMap_cons, Root.chains, Script.KeepsUnder, List.forall_mem_append,
      List.forall_mem_cons] at hkeeps
    cases hf : s.functions.get? root.id with
    | none =>
      have hg : ctx.script.functions.get? root.id = none := by
        have hsame := hctx.script.functions root.id
        rw [show (s.under []).script = s from rfl, hf] at hsame
        exact Option.map_eq_none_iff.mp hsame
      have hheads : s.rootsHeld (root :: roots) = s.rootsHeld roots :=
        List.filter_cons_of_neg (by rw [hf]; exact Bool.false_ne_true)
      rw [Walking.forestRead, hg, hheads]
      exact ih hkeeps.2
    | some f =>
      obtain ⟨g, hg, hgf⟩ := hctx.script.exists_function hf
      have hheads : s.rootsHeld (root :: roots) = root :: s.rootsHeld roots :=
        List.filter_cons_of_pos (by rw [hf]; rfl)
      have hentered : (s.under [root.id]).SameOutline (ctx.push g) := by
        rw [← List.nil_append [root.id], Script.under_append hf]
        exact hctx.push hgf
      rw [Walking.forestRead, hg]
      dsimp only
      rw [Nesting.read_of_keeps hproper hentered (hkeeps.1.1 _ hbody) hkeeps.1.2, ok_bind,
        ih hkeeps.2, ok_bind, hheads]
      refine congrArg Except.ok ?_
      rw [forestBodies, forestBodies, List.flatMap_cons, List.append_assoc]
      rfl

lemma Root.read_of_keeps {tail schedule : List Scheduled} {start : Nat} {roots : List Root}
    (h : Follows body? tail seen start schedule roots) (hctx : (s.under []).SameOutline ctx)
    (hkeeps : s.KeepsUnder body? (forestChains roots)) {root : Root} (hroot : root ∈ roots)
    (hnone : s.functions.get? root.id = none) (hflat : root.nesting.ids = []) :
    root.nesting.read ctx = .ok (root.nesting.code, []) := by
  induction h with
  | done => cases hroot
  | skip _ _ ih => exact ih hkeeps hroot
  | @root seen start first rest roots _ hbody hproper _ ih =>
    rw [forestChains, List.flatMap_cons, Root.chains, Script.KeepsUnder, List.forall_mem_append,
      List.forall_mem_cons] at hkeeps
    rcases List.mem_cons.mp hroot with rfl | hroot
    · have hscopes : s.under [root.id] = s.under [] := @Script.under_of_none s [] _ hnone
      have hbodies : root.nesting.bodies = [] := by
        have := root.nesting.map_fst_bodies
        rw [hflat, List.perm_nil] at this
        exact List.map_eq_nil_iff.mp this
      rw [Nesting.read_of_keeps hproper (hscopes ▸ hctx) (hkeeps.1.1 _ hbody) hkeeps.1.2, hbodies]
    · exact ih hkeeps.2 hroot

lemma keepsCallee_of_keeps {tail schedule : List Scheduled} {start : Nat} {roots : List Root}
    (h : Follows body? tail seen start schedule roots) (hctx : s.SameOutline ctx.script)
    (hkeeps : s.KeepsUnder body? (forestChains roots)) :
    ∀ i ∈ forestCode roots, ctx.script.KeepsCallee i := by
  induction h with
  | done => exact fun _ hi => absurd hi List.not_mem_nil
  | skip _ _ ih => exact ih hkeeps
  | @root seen start root rest roots _ hbody hproper _ ih =>
    rw [forestChains, List.flatMap_cons, Root.chains, Script.KeepsUnder, List.forall_mem_append,
      List.forall_mem_cons] at hkeeps
    refine List.forall_mem_append.mpr ⟨?_, ih hkeeps.2⟩
    exact Nesting.keepsCallee_of_keeps hproper hctx (hkeeps.1.1 _ hbody) hkeeps.1.2

end Reading

lemma Nesting.map_function_chains (n : Nesting) (scopes : List RecordId) :
    (n.chains scopes).map Chain.function = n.ids := by
  induction n generalizing scopes with
  | done => rfl
  | step i rest ih => exact ih scopes
  | host i id inner rest ihi ihr => simp [chains, ids, ihi, ihr]

lemma map_function_forestChains (roots : List Root) :
    (forestChains roots).map Chain.function = forestIds roots := by
  unfold forestChains forestIds
  rw [List.map_flatMap]
  refine List.flatMap_congr fun root _ => ?_
  rw [Root.chains, List.map_cons, Nesting.map_function_chains, Root.ids]

/-- The references of a script are kept among the records of its declared part. -/
structure Script.KeepsShown (s : Script) (chains : Registry Chain) : Prop where
  code : ∀ f ∈ s.functions.records, ∀ chain, chains.get? f.id = some chain →
    ∀ i ∈ f.code, s.shown.Keeps chain.scopes i
  tables : ∀ entry ∈ s.allTables, ∀ refs, entry.2.values = .vars refs →
    ∀ ref ∈ refs, (s.shown.under entry.1.owner.scopes).findVariable (.id ref.id) = .ok ref

namespace Script

variable {s : Script} {chains : Registry Chain}

lemma KeepsReferences.shown (h : s.KeepsReferences chains)
    (hdeclared : ∀ f ∈ s.functions.records, f.isDeclared = true) : s.KeepsShown chains := by
  have hself := shown_eq_self hdeclared
  exact ⟨by rw [hself]; exact h.code, by rw [hself]; exact h.tables⟩

/-- The chains that writing records are those of the roots. -/
lemma KeepsShown.keepsUnder {roots : List Root} {stop : Nat} {w : Writer}
    (h : s.KeepsShown (s.written roots w).chains) (hs : s.Stands roots stop) :
    s.shown.KeepsUnder s.body? (forestChains roots) := by
  intro chain hchain code hcode
  obtain ⟨f, hf, rfl⟩ := Option.map_eq_some_iff.mp hcode
  have hn : ((forestChains roots).map Keyed.id).Nodup := by
    have : (forestIds roots).Nodup := hs.once.nodup_iff.mpr s.functions.nodup
    rwa [← map_function_forestChains] at this
  refine h.code f (Registry.mem_of_get? hf) chain ?_
  rw [show f.id = chain.function from Registry.id_of_get? hf]
  exact Registry.get?_foldl_insert_of_mem hn .empty hchain

end Script

end ScriptContainer
