import ScriptContainer.Layout
import ScriptContainer.Proofs.Outcomes
import ScriptContainer.Proofs.Settling

/-!
# Placing functions

Placing a function lays out a nesting: the cursor moves past its bytes, and the function with those
inside it gets the places of the nesting. What is still to be placed bounds both how deep functions
stand inside each other and how far the cursor can move.
-/

namespace ScriptContainer

namespace Script

/-- The weight of the functions that have no place. -/
def pending (s : Script) (weight : Function → Nat) (placed : List RecordId) : Nat :=
  ((s.functions.records.filter fun f => f.id ∉ placed).map weight).sum

variable {s : Script} {weight : Function → Nat} {placed : List RecordId} {id : RecordId}

lemma sum_filter_notMem_cons {fs : List Function} (hn : (fs.map Function.id).Nodup) {f : Function}
    (hf : f ∈ fs) (h : f.id ∉ placed) :
    ((fs.filter fun x => x.id ∉ placed).map weight).sum =
      weight f + ((fs.filter fun x => x.id ∉ f.id :: placed).map weight).sum := by
  induction fs with
  | nil => simp at hf
  | cons a rest ih =>
    rw [List.map_cons, List.nodup_cons] at hn
    rcases List.mem_cons.mp hf with rfl | hf
    · have hrest : ∀ x ∈ rest, x.id ≠ f.id := by
        intro x hx he
        exact hn.1 (he ▸ List.mem_map_of_mem hx)
      have : rest.filter (fun x => decide (x.id ∉ f.id :: placed)) =
          rest.filter fun x => decide (x.id ∉ placed) :=
        List.filter_congr fun x hx => by simp [hrest x hx]
      rw [List.filter_cons_of_pos (by simpa using h), List.filter_cons_of_neg (by simp), this]
      simp
    · have hne : a.id ≠ f.id := by
        intro he
        exact hn.1 (he ▸ List.mem_map_of_mem hf)
      have := ih hn.2 hf
      by_cases ha : a.id ∈ placed
      · rw [List.filter_cons_of_neg (by simpa using ha), List.filter_cons_of_neg (by simp [ha]),
          this]
      · rw [List.filter_cons_of_pos (by simpa using ha),
          List.filter_cons_of_pos (by simp [ha, hne]), List.map_cons, List.map_cons, List.sum_cons,
          List.sum_cons, this]
        omega

lemma pending_cons {f : Function} (hf : s.functions.get? id = some f) (h : id ∉ placed) :
    s.pending weight placed = weight f + s.pending weight (id :: placed) := by
  have hid : f.id = id := Registry.id_of_get? hf
  subst hid
  exact sum_filter_notMem_cons s.functions.nodup (Registry.mem_of_get? hf) h

lemma pending_congr {placed' : List RecordId} (h : ∀ x, x ∈ placed ↔ x ∈ placed') :
    s.pending weight placed = s.pending weight placed' := by
  simp only [pending, h]

lemma pending_anti {placed' : List RecordId} (h : ∀ x ∈ placed, x ∈ placed') :
    s.pending weight placed' ≤ s.pending weight placed := by
  unfold pending
  induction s.functions.records with
  | nil => simp
  | cons f rest ih =>
    by_cases hf : f.id ∈ placed
    · rw [List.filter_cons_of_neg (by simpa using h f.id hf), List.filter_cons_of_neg (by simpa using hf)]
      exact ih
    · have hpos : decide (f.id ∉ placed) = true := by simpa using hf
      rw [List.filter_cons_of_pos (p := fun f : Function => decide (f.id ∉ placed)) hpos,
        List.map_cons, List.sum_cons]
      by_cases hf' : f.id ∈ placed'
      · rw [List.filter_cons_of_neg (by simpa using hf')]
        omega
      · rw [List.filter_cons_of_pos (by simpa using hf'), List.map_cons, List.sum_cons]
        omega

lemma pending_mapFunctions {g : Function → Function} {hg : ∀ f, (g f).id = f.id}
    (hw : ∀ f, weight (g f) = weight f) :
    (s.mapFunctions g hg).pending weight placed = s.pending weight placed := by
  simp only [pending, functions_mapFunctions, Registry.records_map, List.filter_map, List.map_map,
    Function.comp_def, hg, hw]

lemma pending_modifyFunction (s : Script) (id : RecordId) (f : Function → Function)
    (hf : ∀ x, (f x).id = x.id) (hw : ∀ x, weight (f x) = weight x) :
    (s.modifyFunction id f).pending weight placed = s.pending weight placed := by
  rw [modifyFunction_eq s id f hf]
  refine pending_mapFunctions fun x => ?_
  split
  · exact hw x
  · rfl

/-- The number of functions that have no place. -/
def pendingCount (s : Script) : List RecordId → Nat := s.pending fun _ => 1

/-- The bytes of the functions that have no place. -/
def pendingSize (s : Script) : List RecordId → Nat := s.pending fun f => codeSize f.code

lemma pendingCount_cons {f : Function} (hf : s.functions.get? id = some f) (h : id ∉ placed) :
    s.pendingCount placed = 1 + s.pendingCount (id :: placed) := by
  exact pending_cons hf h

lemma pendingSize_cons {f : Function} (hf : s.functions.get? id = some f) (h : id ∉ placed) :
    s.pendingSize placed = codeSize f.code + s.pendingSize (id :: placed) := by
  exact pending_cons hf h

lemma pendingCount_le : s.pendingCount placed ≤ s.functions.size := by
  have h : s.pendingCount placed ≤ s.pendingCount [] := pending_anti fun _ hx => by simp at hx
  simpa [pendingCount, pending, Registry.size] using h

lemma pendingCount_settleFunctions (plots : List Plot) :
    (s.settleFunctions plots).pendingCount placed = s.pendingCount placed :=
  pending_mapFunctions fun _ => rfl

lemma pendingSize_settleFunctions (plots : List Plot) :
    (s.settleFunctions plots).pendingSize placed = s.pendingSize placed :=
  pending_mapFunctions fun f => by rw [Function.code_settle]

lemma pendingCount_mark (id : RecordId) (c : Bool) :
    (s.mark id c).pendingCount placed = s.pendingCount placed :=
  pending_modifyFunction s id _ (fun _ => rfl) fun _ => rfl

lemma pendingSize_mark (id : RecordId) (c : Bool) :
    (s.mark id c).pendingSize placed = s.pendingSize placed := by
  exact pending_modifyFunction s id _ (fun _ => rfl) fun _ => rfl

lemma pendingCount_begin (id : RecordId) (start : Nat) :
    (s.begin id start).pendingCount placed = s.pendingCount placed := by
  exact pending_modifyFunction s id _ (fun _ => rfl) fun _ => rfl

lemma pendingSize_begin (id : RecordId) (start : Nat) :
    (s.begin id start).pendingSize placed = s.pendingSize placed := by
  exact pending_modifyFunction s id _ (fun _ => rfl) fun _ => rfl

/-- Every instruction of a nesting is one of the body or of a function that had no place. -/
lemma size_add_pendingSize {n : Nesting} (h : n.Proper s.body? (· ∈ placed)) :
    n.size + s.pendingSize (n.ids ++ placed) = codeSize n.code + s.pendingSize placed := by
  induction n generalizing placed with
  | done => simp [Nesting.size, Nesting.ids, Nesting.code]
  | step i rest ih =>
    have := ih h.2
    simp only [Nesting.size, Nesting.ids, Nesting.code, codeSize_cons]
    omega
  | host i id inner rest ihi ihr =>
    obtain ⟨-, hid, hb, hi, hr⟩ := h
    obtain ⟨f, hf, hc⟩ := Option.map_eq_some_iff.mp hb
    have h₀ := pendingSize_cons hf hid
    have h₁ : inner.size + s.pendingSize (inner.ids ++ id :: placed) =
        codeSize inner.code + s.pendingSize (id :: placed) :=
      ihi (hi.congr fun x => by simp)
    have h₂ : rest.size + s.pendingSize (rest.ids ++ (inner.ids ++ id :: placed)) =
        codeSize rest.code + s.pendingSize (inner.ids ++ id :: placed) :=
      ihr (hr.congr fun x => by simp; tauto)
    have h₃ : s.pendingSize ((Nesting.host i id inner rest).ids ++ placed) =
        s.pendingSize (rest.ids ++ (inner.ids ++ id :: placed)) :=
      pending_congr fun x => by simp [Nesting.ids]; tauto
    rw [h₃, h₀, hc]
    simp only [Nesting.size, Nesting.code, codeSize_cons]
    omega

end Script

/-- From a layout to the next one the functions of the plots get their places, and the cursor moves
past `size` bytes. -/
structure Layout.Advances (before : Layout) (plots : List Plot) (size : Nat) (after : Layout) :
    Prop where
  script : after.script = before.script.settleFunctions plots
  cursor : after.cursor = before.cursor + size
  fits : after.cursor < UInt32.size
  perm : after.placed.Perm (plots.map Plot.id ++ before.placed)

namespace Layout.Advances

variable {a b c : Layout} {ps qs : List Plot} {m n : Nat}

lemma refl (h : a.cursor < UInt32.size) : a.Advances [] 0 a :=
  ⟨(Script.settleFunctions_nil _).symm, rfl, h, .refl _⟩

lemma placed (h : a.Advances ps m b) (x : RecordId) :
    x ∈ b.placed ↔ x ∈ ps.map Plot.id ∨ x ∈ a.placed := by
  rw [h.perm.mem_iff, List.mem_append]

lemma trans (hab : a.Advances ps m b) (hbc : b.Advances qs n c)
    (hd : ∀ x ∈ ps.map Plot.id, x ∉ qs.map Plot.id) : a.Advances (ps ++ qs) (m + n) c where
  script := by rw [hbc.script, hab.script, Script.settleFunctions_settleFunctions _ hd]
  cursor := by rw [hbc.cursor, hab.cursor, Nat.add_assoc]
  fits := hbc.fits
  perm := by
    rw [List.map_append]
    refine hbc.perm.trans ((List.perm_append_left_iff _).mpr hab.perm |>.trans ?_)
    rw [← List.append_assoc]
    exact List.perm_append_comm.append_right _

lemma body? (h : a.Advances ps m b) : b.script.body? = a.script.body? := by
  rw [h.script, Script.body?_settleFunctions]

end Layout.Advances

namespace LayOut

/-- What placing a function does with an instruction of it. -/
def step (depth : Nat) (instruction : Instruction .bound) : LayOut Unit := do
  advance instruction.size
  match instruction.spawned? with
  | none => return ()
  | some callee =>
    if ← isPlaced callee then return ()
    else
      let _ ← requireFunction callee
      modifyFunction callee fun _ f => { f with isInline := true }
      place depth callee

lemma place_succ (depth : Nat) (id : RecordId) :
    place (depth + 1) id = (do
      if ← isPlaced id then throw (.placedTwice id)
      else
        modify fun layout => { layout with placed := id :: layout.placed }
        let f ← requireFunction id
        modifyFunction id fun cursor f => { f with codeStart := cursor }
        f.code.forM (step depth)
        modifyFunction id fun cursor f => { f with codeEnd := cursor }) := rfl

variable {layout : Layout} {id : RecordId}

lemma isPlaced_apply : isPlaced id layout = .ok (decide (id ∈ layout.placed)) layout := by
  rw [← List.elem_eq_mem]
  rfl

lemma advance_apply (size : Nat) :
    advance size layout =
      if layout.cursor + size < UInt32.size then
        .ok () { layout with cursor := layout.cursor + size }
      else .error (.internal (.regionOverflow layout.cursor)) layout := by
  change (get >>= _ : LayOut _) layout = _
  rw [bind_of_ok (rfl : (get : LayOut Layout) layout = .ok layout layout)]
  split <;> rfl

lemma requireFunction_apply :
    requireFunction id layout =
      match layout.script.functions.get? id with
      | some f => .ok f layout
      | none => .error (.missingFunction id) layout := by
  change (get >>= _ : LayOut _) layout = _
  rw [bind_of_ok (rfl : (get : LayOut Layout) layout = .ok layout layout)]
  cases layout.script.functions.get? id <;> rfl

lemma modifyFunction_apply (change : UInt32 → Function → Function) :
    modifyFunction id change layout =
      .ok () { layout with
        script := layout.script.modifyFunction id (change (UInt32.ofNat layout.cursor)) } := rfl

/-- The failures of placing: a missing function, or offsets that reach too far. -/
def Fails (reach : Nat) (e : Error) : Prop :=
  (∃ id, e = .missingFunction id) ∨ UInt32.size ≤ reach

lemma Fails.mono {reach reach' : Nat} {e : Error} (h : Fails reach e) (hr : reach ≤ reach') :
    Fails reach' e :=
  h.imp_right hr.trans'

/-- Every function that an instruction starts has a body. -/
def Starts (body? : RecordId → Option (Body .bound)) : Prop :=
  ∀ id code, body? id = some code → ∀ i ∈ code, ∀ callee, i.spawned? = some callee →
    (body? callee).isSome = true

/-- Placing has failed, and not for nothing: a function that is started is missing, or offsets do
reach too far. -/
def Stops (body? : RecordId → Option (Body .bound)) (reach : Nat) (e : Error) : Prop :=
  Fails reach e ∧ ¬ (Starts body? ∧ reach < UInt32.size)

section Stops

variable {body? : RecordId → Option (Body .bound)} {reach reach' : Nat} {e : Error}

lemma Stops.mono (h : Stops body? reach e) (hr : reach ≤ reach') : Stops body? reach' e :=
  ⟨h.1.mono hr, fun hboth => h.2 ⟨hboth.1, hr.trans_lt hboth.2⟩⟩

lemma Stops.of_reach (h : UInt32.size ≤ reach) : Stops body? reach e :=
  ⟨.inr h, fun hboth => by omega⟩

lemma Stops.of_missing {id callee : RecordId} {code : Body .bound} {i : Instruction .bound}
    (hcode : body? id = some code) (hi : i ∈ code) (hs : i.spawned? = some callee)
    (h : body? callee = none) : Stops body? reach (.missingFunction callee) := by
  refine ⟨.inl ⟨callee, rfl⟩, fun hboth => ?_⟩
  have hsome := hboth.1 id code hcode i hi callee hs
  rw [h] at hsome
  cases hsome

end Stops

/-- What placing a function brings about. -/
def Places (before : Layout) (f : Function) (isInline : Bool) (after : Layout) : Prop :=
  ∃ n : Nesting, n.code = f.code ∧
    n.Proper before.script.body? (fun x => x = f.id ∨ x ∈ before.placed) ∧
    before.Advances (⟨f.id, before.cursor, n, isInline⟩ :: n.plots before.cursor) n.size after

/-- What placing functions along a body brings about. -/
def Walks (before : Layout) (code : Body .bound) (after : Layout) : Prop :=
  ∃ n : Nesting, n.code = code ∧ n.Proper before.script.body? (· ∈ before.placed) ∧
    before.Advances (n.plots before.cursor) n.size after

lemma Places.of_mark {f : Function} {c : Bool} {after : Layout}
    (h : Places { layout with script := layout.script.mark f.id c } { f with isInline := c } c
      after) : Places layout f c after := by
  obtain ⟨n, hn, hproper, hadv⟩ := h
  rw [Script.body?_mark] at hproper
  refine ⟨n, hn, hproper, ?_, hadv.cursor, hadv.fits, hadv.perm⟩
  rw [hadv.script, Script.settleFunctions_mark _ (by simp)]

/-- Functions are placed as deep as there are functions without a place. -/
def PlacesWithin (depth : Nat) : Prop :=
  ∀ (id : RecordId) (f : Function) (layout : Layout),
    layout.script.functions.get? id = some f → id ∉ layout.placed →
    layout.cursor < UInt32.size → layout.script.pendingCount layout.placed ≤ depth →
    Outcome (place depth id layout) (fun _ after => Places layout f f.isInline after)
      (Stops layout.script.body? (layout.cursor + layout.script.pendingSize layout.placed))

lemma step_outcome {depth : Nat} {before : Layout} {id : RecordId} {code : Body .bound}
    (hcode : before.script.body? id = some code) {i : Instruction .bound} (hi : i ∈ code)
    (hd : before.script.pendingCount before.placed ≤ depth)
    (hplace : PlacesWithin depth) :
    Outcome (step depth i before) (fun _ after => Walks before [i] after)
      (Stops before.script.body?
        (before.cursor + i.size + before.script.pendingSize before.placed)) := by
  unfold step
  by_cases hfits : before.cursor + i.size < UInt32.size
  case neg =>
    rw [bind_of_error (by rw [advance_apply, if_neg hfits])]
    exact Stops.of_reach (by omega)
  rw [bind_of_ok (by rw [advance_apply, if_pos hfits])]
  cases hs : i.spawned? with
  | none =>
    refine ⟨.step i .done, rfl, ⟨by simp [hs], trivial⟩, ?_⟩
    exact ⟨(Script.settleFunctions_nil _).symm, rfl, hfits, by simp [Nesting.plots]⟩
  | some callee =>
    dsimp only
    rw [bind_of_ok isPlaced_apply]
    by_cases hp : callee ∈ before.placed
    · rw [if_pos (by simpa using hp)]
      refine ⟨.step i .done, rfl, ⟨by simpa [hs] using hp, trivial⟩, ?_⟩
      exact ⟨(Script.settleFunctions_nil _).symm, rfl, hfits, by simp [Nesting.plots]⟩
    rw [if_neg (by simpa using hp)]
    cases hf : before.script.functions.get? callee with
    | none =>
      rw [bind_of_error (by rw [requireFunction_apply, hf])]
      exact Stops.of_missing hcode hi hs (by rw [Script.body?, hf]; rfl)
    | some f =>
      rw [bind_of_ok (by rw [requireFunction_apply, hf]), bind_of_ok (modifyFunction_apply _)]
      have hid : f.id = callee := Registry.id_of_get? hf
      subst hid
      let moved : Layout := { before with cursor := before.cursor + i.size }
      refine (hplace f.id { f with isInline := true }
        { moved with script := moved.script.mark f.id true }
        (Script.get?_mark hf true) hp hfits ?_).mono ?_ ?_
      · rwa [Script.pendingCount_mark]
      · intro _ after hafter
        have hplaces : Places moved f true after := Places.of_mark hafter
        obtain ⟨n, hn, hproper, hadv⟩ := hplaces
        refine ⟨.host i f.id n .done, rfl, ⟨hs, hp, ?_, hproper, trivial⟩, ?_⟩
        · rw [Script.body?, hf, hn]
          rfl
        · simp only [Nesting.plots, List.append_nil, Nesting.size, Nat.add_zero]
          exact ⟨hadv.script, by rw [hadv.cursor, Nat.add_assoc], hadv.fits, hadv.perm⟩
      · intro e he
        rw [Script.pendingSize_mark, Script.body?_mark] at he
        exact he

lemma Walks.cons {a b c : Layout} {i : Instruction .bound} {code : Body .bound}
    (hab : Walks a [i] b) (hbc : Walks b code c) : Walks a (i :: code) c := by
  obtain ⟨n, hn, hproper, hadv⟩ := hab
  obtain ⟨m, hm, hproper', hadv'⟩ := hbc
  rw [hadv.body?] at hproper'
  refine ⟨n.append m, by rw [Nesting.code_append, hn, hm, List.singleton_append], ?_, ?_⟩
  · refine hproper.append (hproper'.congr fun x => ?_)
    rw [hadv.placed, Nesting.map_id_plots]
  · rw [Nesting.plots_append, Nesting.size_append]
    rw [hadv.cursor] at hadv'
    refine hadv.trans hadv' fun x hx hx' => ?_
    rw [Nesting.map_id_plots] at hx'
    exact hproper'.nodup.2 x hx' ((hadv.placed x).mpr (.inl hx))

lemma Walks.pendingSize {a b : Layout} {code : Body .bound} (h : Walks a code b) :
    b.cursor + b.script.pendingSize b.placed =
      a.cursor + codeSize code + a.script.pendingSize a.placed := by
  obtain ⟨n, hn, hproper, hadv⟩ := h
  have hp : b.script.pendingSize b.placed = a.script.pendingSize (n.ids ++ a.placed) := by
    rw [hadv.script, Script.pendingSize_settleFunctions]
    exact Script.pending_congr fun x => by rw [hadv.placed, Nesting.map_id_plots, List.mem_append]
  have := Script.size_add_pendingSize hproper
  rw [hp, hadv.cursor, ← hn]
  omega

lemma Walks.pendingCount_le {a b : Layout} {code : Body .bound} (h : Walks a code b) :
    b.script.pendingCount b.placed ≤ a.script.pendingCount a.placed := by
  obtain ⟨n, -, -, hadv⟩ := h
  rw [hadv.script, Script.pendingCount_settleFunctions]
  exact Script.pending_anti fun x hx => (hadv.placed x).mpr (.inr hx)

lemma Walks.nil {a : Layout} (h : a.cursor < UInt32.size) : Walks a [] a :=
  ⟨.done, rfl, trivial, .refl h⟩

lemma steps_outcome {depth : Nat} (hplace : PlacesWithin depth) (code : Body .bound)
    (before : Layout) (hc : before.cursor < UInt32.size)
    (hd : before.script.pendingCount before.placed ≤ depth) {id : RecordId} {whole : Body .bound}
    (hwhole : before.script.body? id = some whole) (hcode : ∀ i ∈ code, i ∈ whole) :
    Outcome (code.forM (step depth) before) (fun _ after => Walks before code after)
      (Stops before.script.body?
        (before.cursor + codeSize code + before.script.pendingSize before.placed)) := by
  induction code generalizing before with
  | nil => exact Walks.nil hc
  | cons i code ih =>
    rw [List.forall_mem_cons] at hcode
    change Outcome ((step depth i >>= fun _ => code.forM (step depth)) before) _ _
    refine Outcome.bind ((step_outcome hwhole hcode.1 hd hplace).mono (fun _ _ h => h) ?_) ?_
    · intro e he
      exact he.mono (by simp only [codeSize_cons]; omega)
    · intro _ next hnext
      have hwalks := hnext
      have hsize := hnext.pendingSize
      have hcount := hnext.pendingCount_le
      obtain ⟨_, -, -, hadv⟩ := hnext
      have hbody := hadv.body?
      refine (ih next hadv.fits (hcount.trans hd) (hbody ▸ hwhole) hcode.2).mono
        (fun _ _ h => hwalks.cons h) ?_
      intro e he
      rw [hbody] at he
      refine he.mono ?_
      simp only [codeSize_cons, codeSize_nil] at hsize ⊢
      omega

theorem placesWithin (depth : Nat) : PlacesWithin depth := by
  -- The depth bounds the functions without a place, and each level takes one of them.
  induction depth with
  | zero =>
    intro id f layout hf hp _ hd
    have := Script.pendingCount_cons hf hp
    omega
  | succ depth ih =>
    intro id f layout hf hp hc hd
    have hid : f.id = id := Registry.id_of_get? hf
    subst hid
    rw [place_succ, bind_of_ok isPlaced_apply, if_neg (by simpa using hp)]
    -- The function counts as placed while its instructions are gone through.
    let started : Layout :=
      ⟨layout.script.begin f.id layout.cursor, layout.cursor, f.id :: layout.placed⟩
    have hcount : started.script.pendingCount started.placed ≤ depth := by
      have := Script.pendingCount_cons hf hp
      rw [Script.pendingCount_begin]
      simp only [started]
      omega
    have hsize : layout.script.pendingSize layout.placed =
        codeSize f.code + started.script.pendingSize started.placed := by
      rw [Script.pendingSize_begin]
      exact Script.pendingSize_cons hf hp
    change Outcome ((requireFunction f.id >>= _ : LayOut Unit)
      ⟨layout.script, layout.cursor, f.id :: layout.placed⟩) _ _
    rw [bind_of_ok (by rw [requireFunction_apply, hf]), bind_of_ok (modifyFunction_apply _)]
    have hbody : started.script.body? f.id = some f.code := by
      rw [Script.body?_begin, Script.body?, hf]
      rfl
    refine Outcome.bind (x := f.code.forM (step depth)) (s := started)
      ((steps_outcome ih f.code started hc hcount hbody fun _ hi => hi).mono (fun _ _ h => h) ?_) ?_
    · intro e he
      rw [Script.body?_begin] at he
      exact he.mono (by rw [hsize, Nat.add_assoc])
    · rintro _ after ⟨n, hn, hproper, hadv⟩
      rw [Script.body?_begin] at hproper
      rw [modifyFunction_apply]
      refine ⟨n, hn, hproper.congr fun x => List.mem_cons, ?_, hadv.cursor, hadv.fits, ?_⟩
      · have hid : f.id ∉ (n.plots layout.cursor).map Plot.id := by
          rw [Nesting.map_id_plots]
          exact fun hx => hproper.nodup.2 _ hx (by simp [started])
        have := Script.finishAt_settleFunctions_begin (p := ⟨f.id, layout.cursor, n, f.isInline⟩)
          hf hid rfl
        rw [← this, ← hadv.script, hadv.cursor]
        rfl
      · exact hadv.perm.trans List.perm_middle

end LayOut

end ScriptContainer
