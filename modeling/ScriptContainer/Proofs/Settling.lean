import ScriptContainer.Script
import ScriptContainer.Proofs.Nesting

/-!
# Scripts whose functions have places

Laying out gives every function its offsets and changes nothing else of it. This file says what a
script is once the places of its functions are known.
-/

namespace ScriptContainer

namespace Script

/-- Change every function by a function that leaves ids alone. -/
def mapFunctions (s : Script) (g : Function → Function) (hg : ∀ f, (g f).id = f.id) : Script :=
  { s with functions := s.functions.map g hg }

variable {g h : Function → Function} {hg : ∀ f, (g f).id = f.id} {hh : ∀ f, (h f).id = f.id}

@[simp] lemma functions_mapFunctions (s : Script) :
    (s.mapFunctions g hg).functions = s.functions.map g hg := rfl

lemma mapFunctions_mapFunctions (s : Script) :
    (s.mapFunctions g hg).mapFunctions h hh =
      s.mapFunctions (fun f => h (g f)) (fun f => by rw [hh, hg]) := by
  simp only [mapFunctions]
  rw [Registry.map_map]

lemma mapFunctions_congr {s : Script} (he : ∀ f ∈ s.functions.records, g f = h f) :
    s.mapFunctions g hg = s.mapFunctions h hh := by
  simp only [mapFunctions]
  rw [Registry.map_congr he]

lemma mapFunctions_eq_self {s : Script} (he : ∀ f ∈ s.functions.records, g f = f) :
    s.mapFunctions g hg = s := by
  simp only [mapFunctions]
  rw [Registry.map_eq_self he]

lemma modifyFunction_eq (s : Script) (id : RecordId) (f : Function → Function)
    (hf : ∀ x, (f x).id = x.id) :
    s.modifyFunction id f =
      s.mapFunctions (fun x => if x.id = id then f x else x) (fun x => by split <;> simp [hf]) := by
  rw [modifyFunction, Registry.modify_eq_map s.functions id hf]
  rfl

/-- The code of a function, if there is such a function. -/
def body? (s : Script) (id : RecordId) : Option (Body .bound) :=
  (s.functions.get? id).map Function.code

lemma body?_mapFunctions {s : Script} (hc : ∀ f, (g f).code = f.code) :
    (s.mapFunctions g hg).body? = s.body? := by
  funext id
  simp [body?, Option.map_map, Function.comp_def, hc]

lemma body?_modifyFunction (s : Script) (id : RecordId) (f : Function → Function)
    (hf : ∀ x, (f x).id = x.id) (hc : ∀ x, (f x).code = x.code) :
    (s.modifyFunction id f).body? = s.body? := by
  rw [modifyFunction_eq s id f hf]
  refine body?_mapFunctions fun x => ?_
  split
  · exact hc x
  · rfl

end Script

namespace Function

/-- The function with the place that the plots give it. -/
def settle (plots : List Plot) (f : Function) : Function :=
  match plots.find? fun p => p.id == f.id with
  | some p =>
    { f with
      codeStart := UInt32.ofNat p.start, codeEnd := UInt32.ofNat p.stop, isInline := p.isInline }
  | none => f

@[simp] lemma id_settle (plots : List Plot) (f : Function) : (f.settle plots).id = f.id := by
  unfold settle
  split <;> rfl

@[simp] lemma code_settle (plots : List Plot) (f : Function) : (f.settle plots).code = f.code := by
  unfold settle
  split <;> rfl

@[simp] lemma labels_settle (plots : List Plot) (f : Function) :
    (f.settle plots).labels = f.labels := by
  unfold settle
  split <;> rfl

lemma tables_settle (plots : List Plot) (f : Function) : (f.settle plots).tables = f.tables := by
  unfold settle
  split <;> rfl

lemma settle_of_notMem {plots : List Plot} {f : Function} (h : f.id ∉ plots.map Plot.id) :
    f.settle plots = f := by
  have : plots.find? (fun p => p.id == f.id) = none := by
    simpa [List.find?_eq_none] using h
  rw [settle, this]

lemma settle_cons (p : Plot) (plots : List Plot) (f : Function) :
    f.settle (p :: plots) =
      if p.id = f.id then
        { f with
          codeStart := UInt32.ofNat p.start, codeEnd := UInt32.ofNat p.stop, isInline := p.isInline }
      else f.settle plots := by
  by_cases h : p.id = f.id <;> simp [settle, h]

lemma settle_of_mem {plots : List Plot} (hn : (plots.map Plot.id).Nodup) {p : Plot}
    (hp : p ∈ plots) {f : Function} (hid : p.id = f.id) :
    f.settle plots =
      { f with
        codeStart := UInt32.ofNat p.start, codeEnd := UInt32.ofNat p.stop,
        isInline := p.isInline } := by
  have : plots.find? (fun q => q.id == f.id) = some p := by
    rw [← hid]
    exact Registry.find?_id_of_mem hn hp
  rw [settle, this]

lemma settle_append {ps qs : List Plot} (hd : ∀ x ∈ ps.map Plot.id, x ∉ qs.map Plot.id)
    (f : Function) : (f.settle ps).settle qs = f.settle (ps ++ qs) := by
  induction ps with
  | nil => simp [settle]
  | cons p ps ih =>
    rw [settle_cons, List.cons_append, settle_cons]
    split
    case isTrue h =>
      refine settle_of_notMem ?_
      rw [← h]
      exact hd p.id (by simp)
    case isFalse h => exact ih fun x hx => hd x (by simp [hx])

lemma settle_update {plots : List Plot} {f : Function} (h : f.id ∈ plots.map Plot.id)
    (a b : UInt32) (c : Bool) :
    settle plots { f with codeStart := a, codeEnd := b, isInline := c } = f.settle plots := by
  obtain ⟨p, hp, hid⟩ := List.mem_map.mp h
  have hs : (plots.find? fun p => p.id == f.id).isSome := by
    rw [List.find?_isSome]
    exact ⟨p, hp, by simp [hid]⟩
  obtain ⟨q, hq⟩ := Option.isSome_iff_exists.mp hs
  simp only [settle, hq]

end Function

namespace Script

/-- The script whose functions have the places of the plots. -/
def settleFunctions (s : Script) (plots : List Plot) : Script :=
  s.mapFunctions (Function.settle plots) (Function.id_settle plots)

@[simp] lemma ids_settleFunctions (s : Script) (plots : List Plot) :
    (s.settleFunctions plots).functions.ids = s.functions.ids := by simp [settleFunctions]

lemma get?_settleFunctions (s : Script) (plots : List Plot) (id : RecordId) :
    (s.settleFunctions plots).functions.get? id =
      (s.functions.get? id).map (Function.settle plots) := by
  simp [settleFunctions]

@[simp] lemma body?_settleFunctions (s : Script) (plots : List Plot) :
    (s.settleFunctions plots).body? = s.body? :=
  body?_mapFunctions (Function.code_settle plots)

lemma settleFunctions_nil (s : Script) : s.settleFunctions [] = s :=
  mapFunctions_eq_self fun _ _ => rfl

/-- The script in which a function is taken for inline, or not. -/
def mark (s : Script) (id : RecordId) (isInline : Bool) : Script :=
  s.modifyFunction id fun f => { f with isInline }

lemma mark_eq (s : Script) (id : RecordId) (c : Bool) :
    s.mark id c =
      s.mapFunctions (fun f => if f.id = id then { f with isInline := c } else f)
        (fun f => by split <;> rfl) := by
  rw [mark, modifyFunction_eq]
  exact fun _ => rfl

@[simp] lemma body?_mark (s : Script) (id : RecordId) (c : Bool) :
    (s.mark id c).body? = s.body? := by
  rw [mark, body?_modifyFunction]
  · exact fun _ => rfl
  · exact fun _ => rfl

lemma get?_mark {s : Script} {id : RecordId} {f : Function} (hf : s.functions.get? id = some f)
    (c : Bool) : (s.mark id c).functions.get? id = some { f with isInline := c } := by
  rw [mark_eq, functions_mapFunctions, Registry.get?_map, hf, Option.map_some,
    if_pos (show f.id = id from Registry.id_of_get? hf)]

lemma settleFunctions_mark (s : Script) {plots : List Plot} {id : RecordId}
    (h : id ∈ plots.map Plot.id) (c : Bool) :
    (s.mark id c).settleFunctions plots = s.settleFunctions plots := by
  rw [mark_eq, settleFunctions, mapFunctions_mapFunctions]
  refine mapFunctions_congr fun f _ => ?_
  split
  case isTrue hf => exact Function.settle_update (hf ▸ h) f.codeStart f.codeEnd c
  case isFalse => rfl

/-- The script in which the code of a function starts at an offset. -/
def begin (s : Script) (id : RecordId) (start : Nat) : Script :=
  s.modifyFunction id fun f => { f with codeStart := UInt32.ofNat start }

@[simp] lemma body?_begin (s : Script) (id : RecordId) (start : Nat) :
    (s.begin id start).body? = s.body? := by
  rw [begin, body?_modifyFunction]
  · exact fun _ => rfl
  · exact fun _ => rfl

/-- The script in which the code of a function ends at an offset. -/
def finishAt (s : Script) (id : RecordId) (stop : Nat) : Script :=
  s.modifyFunction id fun f => { f with codeEnd := UInt32.ofNat stop }

/-- A start before and an end after those of the functions inside give the place of a function. -/
lemma finishAt_settleFunctions_begin {s : Script} {plots : List Plot} {p : Plot} {f : Function}
    (hf : s.functions.get? p.id = some f) (h : p.id ∉ plots.map Plot.id)
    (hi : p.isInline = f.isInline) :
    ((s.begin p.id p.start).settleFunctions plots).finishAt p.id p.stop =
      s.settleFunctions (p :: plots) := by
  rw [begin, modifyFunction_eq, settleFunctions, mapFunctions_mapFunctions]
  case hf => exact fun _ => rfl
  rw [finishAt, modifyFunction_eq, mapFunctions_mapFunctions, settleFunctions]
  case hf => exact fun _ => rfl
  refine mapFunctions_congr fun x hx => ?_
  rw [Function.settle_cons]
  by_cases hid : x.id = p.id
  · have hxf : x = f := Registry.eq_of_get? hx hid hf
    subst hxf
    rw [if_pos hid, if_pos hid.symm, Function.settle_of_notMem (by simpa [hid] using h),
      if_pos hid, hi]
  · rw [if_neg hid, if_neg (Ne.symm hid), if_neg (by simpa using hid)]

lemma settleFunctions_settleFunctions (s : Script) {ps qs : List Plot}
    (hd : ∀ x ∈ ps.map Plot.id, x ∉ qs.map Plot.id) :
    (s.settleFunctions ps).settleFunctions qs = s.settleFunctions (ps ++ qs) := by
  rw [settleFunctions, settleFunctions, mapFunctions_mapFunctions]
  exact mapFunctions_congr fun f _ => Function.settle_append hd f

lemma get?_settleFunctions_of_notMem {s : Script} {plots : List Plot} {id : RecordId}
    (h : id ∉ plots.map Plot.id) :
    (s.settleFunctions plots).functions.get? id = s.functions.get? id := by
  rw [get?_settleFunctions]
  cases hf : s.functions.get? id with
  | none => rfl
  | some f =>
    have : f.id = id := Registry.id_of_get? hf
    rw [Option.map_some, Function.settle_of_notMem (by rwa [this])]

end Script

end ScriptContainer
