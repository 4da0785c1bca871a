import ScriptContainer.Proofs.Buildable
import ScriptContainer.Proofs.ScopeChains

/-!
# Scopes of written code

The scope chains of a script are found by going through its functions in the order in which they
are laid out. Writing goes through the schedule instead, with inline flags that laying out has set
and, the second time, with other targets. Both find the forest of the script: the chains are those
of its nestings.
-/

namespace ScriptContainer

namespace Registry

variable {α : Type} [Keyed α]

lemma contains_insert (r : Registry α) (x : α) (id : RecordId) :
    (r.insert x).contains id = true ↔ id = Keyed.id x ∨ r.contains id = true := by
  rw [contains_eq_isSome, contains_eq_isSome, get?_insert]
  by_cases hid : id = Keyed.id x <;> simp [hid]

lemma contains_foldl_insert (xs : List α) (r : Registry α) (id : RecordId) :
    (xs.foldl insert r).contains id = true ↔ id ∈ xs.map Keyed.id ∨ r.contains id = true := by
  induction xs generalizing r with
  | nil => simp
  | cons x xs ih =>
    rw [List.foldl_cons, ih, contains_insert, List.map_cons, List.mem_cons]
    tauto

end Registry

namespace Script

variable {s : Script} {chains : Registry Chain} {scopes outer : List RecordId}

/-- The chains with those of the functions that a body starts and that have none. -/
def chainsInside (s : Script) (depth : Nat) (scopes : List RecordId) (chains : Registry Chain)
    (code : Body .bound) : Registry Chain :=
  (code.filterMap Instruction.spawned?).foldl (fun chains callee =>
    if chains.contains callee then chains
    else s.chainsFrom Function.spawns depth scopes chains callee) chains

lemma chainsInside_cons (i : Instruction .bound) (code : Body .bound) (depth : Nat) :
    s.chainsInside depth scopes chains (i :: code) =
      s.chainsInside depth scopes
        (match i.spawned? with
          | none => chains
          | some callee =>
            if chains.contains callee then chains
            else s.chainsFrom Function.spawns depth scopes chains callee) code := by
  unfold chainsInside
  cases hspawn : i.spawned? with
  | none => rw [List.filterMap_cons_none hspawn]
  | some callee => rw [List.filterMap_cons_some hspawn, List.foldl_cons]

lemma chainsFrom_of_body? {id : RecordId} {code : Body .bound} (h : s.body? id = some code)
    (depth : Nat) :
    s.chainsFrom Function.spawns (depth + 1) outer chains id =
      s.chainsInside depth (outer ++ [id]) (chains.insert ⟨id, outer ++ [id]⟩) code := by
  obtain ⟨f, hf, rfl⟩ := Option.map_eq_some_iff.mp h
  rw [chainsFrom, hf]
  rfl

end Script

lemma Nesting.Proper.chainsInside_eq {s : Script} {n : Nesting} {seen : RecordId → Prop}
    {chains : Registry Chain} {scopes : List RecordId} {depth : Nat} (h : n.Proper s.body? seen)
    (hseen : ∀ x, seen x ↔ chains.contains x = true) (hdepth : n.height ≤ depth) :
    s.chainsInside depth scopes chains n.code = (n.chains scopes).foldl Registry.insert chains := by
  induction n generalizing seen chains scopes depth with
  | done => rfl
  | step i rest ih =>
    -- What a step starts has been reached before, so it has a chain already.
    have hstep : (match i.spawned? with
        | none => chains
        | some callee =>
          if chains.contains callee then chains
          else s.chainsFrom Function.spawns depth scopes chains callee) = chains := by
      cases hspawn : i.spawned? with
      | none => rfl
      | some callee => exact if_pos ((hseen callee).mp (h.1 callee hspawn))
    rw [code, Script.chainsInside_cons, hstep]
    exact ih h.2 hseen hdepth
  | host i id inner rest ihi ihr =>
    obtain ⟨hspawn, hid, hbody, hinner, hrest⟩ := h
    obtain ⟨depth, rfl⟩ : ∃ d, depth = d + 1 :=
      ⟨depth - 1, by simp only [height] at hdepth; omega⟩
    simp only [height, Nat.max_le, Nat.add_le_add_iff_right] at hdepth
    have hnew : ¬ chains.contains id = true := fun hc => hid ((hseen id).mpr hc)
    -- The function counts as reached while its own body is gone through.
    have hentered : ∀ x, x = id ∨ seen x ↔
        (chains.insert ⟨id, scopes ++ [id]⟩).contains x = true := by
      intro x
      rw [Registry.contains_insert, hseen]
      rfl
    have hfound : s.chainsFrom Function.spawns (depth + 1) scopes chains id =
        ((⟨id, scopes ++ [id]⟩ : Chain) :: inner.chains (scopes ++ [id])).foldl Registry.insert
          chains := by
      rw [Script.chainsFrom_of_body? hbody, ihi hinner hentered hdepth.1, List.foldl_cons]
    rw [code, Script.chainsInside_cons, hspawn]
    dsimp only
    rw [if_neg hnew, hfound, ihr hrest (fun x => ?_) hdepth.2, ← List.foldl_append]
    · rfl
    · rw [Registry.contains_foldl_insert, ← hseen]
      change _ ↔ x ∈ ((⟨id, scopes ++ [id]⟩ : Chain) :: _).map Chain.function ∨ _
      rw [List.map_cons, Nesting.map_function_chains]

/-- Going through functions in order finds the chains of the forest that they grow. -/
lemma Grows.chains_eq {s : Script} {seen : RecordId → Prop} {ids : List RecordId}
    {roots : List Root} {chains : Registry Chain} (h : Grows s.body? seen ids roots)
    (hseen : ∀ x, seen x ↔ chains.contains x = true)
    (hheight : ∀ root ∈ roots, root.nesting.height ≤ s.functions.size) :
    ids.foldl (fun chains id =>
      if chains.contains id then chains
      else s.chainsFrom Function.spawns (s.functions.size + 1) [] chains id) chains =
      (forestChains roots).foldl Registry.insert chains := by
  induction h generalizing chains with
  | nil => rfl
  | reached hid _ ih =>
    rw [List.foldl_cons, if_pos ((hseen _).mp hid)]
    exact ih hseen hheight
  | @root seen root ids roots hid hbody hproper _ ih =>
    rw [List.forall_mem_cons] at hheight
    have hnew : ¬ chains.contains root.id = true := fun hc => hid ((hseen _).mpr hc)
    have hroot : s.chainsFrom Function.spawns (s.functions.size + 1) [] chains root.id =
        root.chains.foldl Registry.insert chains := by
      rw [Script.chainsFrom_of_body? hbody, hproper.chainsInside_eq (fun x => ?_) hheight.1]
      · rfl
      · rw [List.nil_append, Registry.contains_insert, hseen]
        rfl
    rw [List.foldl_cons, if_neg hnew, hroot, ih (fun x => ?_) hheight.2, forestChains,
      forestChains, List.flatMap_cons, List.foldl_append]
    rw [Registry.contains_foldl_insert, ← hseen]
    change _ ↔ x ∈ root.chains.map Chain.function ∨ _
    rw [Root.chains, List.map_cons, Nesting.map_function_chains]
    rfl

section Dress

variable {other? : RecordId → Option (Body .bound)}

lemma Nesting.chains_dress (n : Nesting) (code : Body .bound) (scopes : List RecordId) :
    (n.dress other? code).chains scopes = n.chains scopes := by
  induction n generalizing code scopes with
  | done => rfl
  | step i rest ih => exact ih _ _
  | host i id inner rest ihi ihr => simp only [dress, chains, ihi, ihr]

lemma forestChains_dress (roots : List Root) :
    forestChains (roots.map (Root.dress other?)) = forestChains roots := by
  unfold forestChains
  rw [List.flatMap_map]
  refine List.flatMap_congr fun root _ => ?_
  simp only [Root.chains, Root.dress, Nesting.chains_dress]

end Dress

/-- Forests of the same plots have the same roots. -/
lemma perm_of_forestPlots {start : Nat} {roots roots' : List Root}
    (h : (forestPlots start roots').Perm (forestPlots start roots)) : roots'.Perm roots := by
  have hroot (start : Nat) (roots : List Root) :
      (rootPlots start roots).map (fun p => (⟨p.id, p.nesting⟩ : Root)) = roots := by
    induction roots generalizing start with
    | nil => rfl
    | cons root roots ih => rw [rootPlots, List.map_cons, ih, Root.plot]
  have hroots := h.filter fun p => !p.isInline
  rw [filter_not_isInline_forestPlots, filter_not_isInline_forestPlots] at hroots
  have hmap := hroots.map fun p => (⟨p.id, p.nesting⟩ : Root)
  rwa [hroot, hroot] at hmap

namespace Script

variable {s after : Script} {options : Options} {built : Built}

/-- The chains of a script are those of its forest. -/
theorem LaidOut.scopeChains_eq {laid : Script} {roots : List Root} {stop : Nat}
    (h : s.LaidOut roots stop laid) :
    s.scopeChains Function.spawns = (forestChains roots).foldl Registry.insert .empty := by
  have hheight : ∀ root ∈ roots, root.nesting.height ≤ s.functions.size := by
    intro root hroot
    have hsub : root.ids.Sublist (forestIds roots) := by
      rw [forestIds, List.flatMap_def]
      exact List.sublist_flatten_of_mem (List.mem_map_of_mem hroot)
    have hlength := hsub.length_le
    have hheight := root.nesting.height_le
    rw [Root.ids, List.length_cons, h.perm_ids.length_eq, Registry.ids, List.length_map] at hlength
    exact hheight.trans (Nat.le_of_succ_le hlength)
  have hnone (x : RecordId) : False ↔ (Registry.empty : Registry Chain).contains x = true :=
    ⟨False.elim, fun hc => by cases hc⟩
  have hgrown := h.grows.chains_eq hnone hheight
  rw [List.foldl_map] at hgrown
  exact hgrown

/-- Every function that is built has been written, both times, under the scopes that its chain
holds: those that are found by going through the script as it was before it was laid out. -/
theorem scopeChains_eq_written (h : build options s = .ok built after) :
    ∃ stop laid first emission second,
      assignOffsets s = .ok stop laid ∧ laid.opening = .ok first ∧
      laid.emit first.writer = .ok emission ∧ after.emit .empty = .ok second ∧
      ∀ f ∈ s.functions.records, ∃ scopes,
        (s.scopeChains Function.spawns).get? f.id = some ⟨f.id, scopes⟩ ∧
        emission.chains.get? f.id = some ⟨f.id, scopes⟩ ∧
        second.chains.get? f.id = some ⟨f.id, scopes⟩ := by
  obtain ⟨laid, roots, stop, hbuilt⟩ := (build_outcome options s).of_ok h
  obtain ⟨grown, hlaid⟩ := (assignOffsets_outcome s).of_ok hbuilt.offsets
  obtain ⟨roots', hstands, hplots⟩ := hlaid.stands
  have hw := laid.four_dvd_position_opening
  have hall : laid.EncodesAll roots := ⟨hbuilt.writable.code, hbuilt.writable.tables⟩
  -- The forest that is written and the grown one are compared through the plots they share.
  have hsame : (forestChains roots).foldl Registry.insert .empty =
      (forestChains roots').foldl Registry.insert .empty :=
    congrArg Emission.chains (hbuilt.stands.written_eq hstands hall hw)
  have hperm : (forestChains roots').Perm (forestChains grown) :=
    (perm_of_forestPlots hplots).flatMap_right _
  have honce : ((forestChains grown).map Keyed.id).Nodup := by
    have := hlaid.grows.nodup.1
    rwa [← map_function_forestChains] at this
  refine ⟨stop, laid, _, _, _, hbuilt.offsets, (opening_yields laid).eq_ok hbuilt.writable.values,
    hbuilt.toIsPrepared.emit_eq hw, hbuilt.emit_eq (w := .empty) ⟨0, rfl⟩, fun f hf => ?_⟩
  have hmem : f.id ∈ (forestChains grown).map Chain.function := by
    rw [map_function_forestChains]
    exact hlaid.perm_ids.mem_iff.mpr (List.mem_map_of_mem hf)
  obtain ⟨⟨_, scopes⟩, hchain, rfl⟩ := List.mem_map.mp hmem
  have hwritten : ((forestChains roots).foldl Registry.insert .empty).get? f.id =
      some ⟨f.id, scopes⟩ := by
    rw [hsame]
    exact Registry.get?_foldl_insert_of_mem ((hperm.map _).nodup_iff.mpr honce) .empty
      (hperm.mem_iff.mpr hchain)
  refine ⟨scopes, ?_, hwritten, ?_⟩
  · rw [hlaid.scopeChains_eq]
    exact Registry.get?_foldl_insert_of_mem honce .empty hchain
  · change ((forestChains _).foldl Registry.insert .empty).get? _ = _
    rw [forestChains_dress]
    exact hwritten

/-- Two functions that start each other, the second of them also an inline function without code,
and another inline function, which nothing starts. -/
def carousel : Script :=
  let start (callee : RecordId) : Instruction .bound := .thread2 ⟨.function callee, [], []⟩
  let first := (Function.new 1).push (start 2)
  let second := ((Function.new 2).push (start 1)).push (start 3)
  let orphan := (Function.new 4).push (start 3)
  (((Script.new.addFunction first).addFunction second).addFunction
    { Function.new 3 with isInline := true }).addFunction { orphan with isInline := true }

theorem carousel_scopes : ∃ built after second,
    build .lenient carousel = .ok built after ∧ after.emit .empty = .ok second ∧
      second.chains.get? 1 = some ⟨1, [2, 1]⟩ ∧ second.chains.get? 3 = some ⟨3, [2, 3]⟩ ∧
      second.chains.get? 4 = some ⟨4, [4]⟩ := by
  obtain ⟨built, after, hbuild⟩ : ∃ built after, build .lenient carousel = .ok built after :=
    Buildable.exists_build (by decide)
  obtain ⟨stop, laid, first, emission, second, -, -, -, hsecond, hchains⟩ :=
    scopeChains_eq_written hbuild
  have hchain (id : RecordId) (scopes : List RecordId) (hid : id ∈ carousel.functions.ids)
      (hfound : (carousel.scopeChains Function.spawns).get? id = some ⟨id, scopes⟩) :
      second.chains.get? id = some ⟨id, scopes⟩ := by
    obtain ⟨f, hf, rfl⟩ := List.mem_map.mp hid
    obtain ⟨scopes', hfound', -, hwritten⟩ := hchains f hf
    exact hwritten.trans (hfound'.symm.trans hfound)
  exact ⟨built, after, second, hbuild, hsecond, hchain 1 _ (by decide) (by cbv),
    hchain 3 _ (by decide) (by cbv), hchain 4 _ (by decide) (by cbv)⟩

end Script

end ScriptContainer
