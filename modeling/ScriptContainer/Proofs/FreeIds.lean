import Mathlib.Algebra.Order.BigOperators.Group.List
import ScriptContainer.Proofs.Accounting
import ScriptContainer.Proofs.BoundFindings

/-!
# Ids for code outside declared functions

Code that belongs to no declared function is given the ids that follow the greatest id of a function.
Whether these start again from zero can be seen from the script that results. Where they do not, they
are the ids of no other function.
-/

namespace ScriptContainer

namespace Script

variable {s : Script} {id : RecordId} {n m count : Nat}

/-- The functions that have no declaration. -/
def undeclared (s : Script) : List Function := s.functions.records.filter fun f => !f.isDeclared

/-- After the id of any declared function there are ids for all functions without declaration. -/
def LeavesIds (s : Script) : Prop := ∀ f ∈ s.declared, f.id.toNat + s.undeclared.length < UInt32.size

instance (s : Script) : Decidable s.LeavesIds :=
  inferInstanceAs (Decidable (∀ f ∈ s.declared, _))

lemma gapId_inj (hn : n < UInt32.size) (hm : m < UInt32.size) (h : s.gapId n = s.gapId m) : n = m := by
  have hsame := congrArg UInt32.toNat ((UInt32.add_right_inj _).mp h)
  rwa [UInt32.toNat_ofNat_of_lt' hn, UInt32.toNat_ofNat_of_lt' hm] at hsame

lemma nodup_gapIds (hcount : count ≤ UInt32.size) : ((List.range count).map s.gapId).Nodup := by
  refine List.Nodup.map_on (fun n hn m hm h => ?_) List.nodup_range
  rw [List.mem_range] at hn hm
  exact gapId_inj (by omega) (by omega) h

lemma exists_greatest (h : s.functions.ids ≠ []) :
    ∃ id ∈ s.functions.ids, (∀ other ∈ s.functions.ids, other.toNat ≤ id.toNat) ∧
      s.nextFunctionId = id + 1 := by
  unfold nextFunctionId
  cases hmax : (s.functions.ids.map UInt32.toNat).max? with
  | none =>
    rw [List.max?_eq_none_iff, List.map_eq_nil_iff] at hmax
    exact absurd hmax h
  | some greatest =>
    obtain ⟨hmem, hle⟩ := List.max?_eq_some_iff.mp hmax
    obtain ⟨id, hid, rfl⟩ := List.mem_map.mp hmem
    refine ⟨id, hid, fun other hother => hle _ (List.mem_map_of_mem hother), ?_⟩
    dsimp only
    rw [UInt32.ofNat_add, UInt32.ofNat_toNat]
    rfl

lemma toNat_gapId (h : s.nextFunctionId = id + 1) (n : Nat) :
    (s.gapId n).toNat = (id.toNat + 1 + n) % UInt32.size := by
  have hid : id + 1 + UInt32.ofNat n = UInt32.ofNat (id.toNat + 1 + n) := by
    rw [UInt32.ofNat_add, UInt32.ofNat_add, UInt32.ofNat_toNat]
    rfl
  rw [gapId, h, hid]
  exact UInt32.toNat_ofNat

lemma gapId_ne (h : s.nextFunctionId = id + 1) (hn : n + 1 < UInt32.size) : s.gapId n ≠ id := by
  intro he
  have hsame := toNat_gapId h n
  have hlt := id.toNat_lt
  rw [he] at hsame
  change n + 1 < 4294967296 at hn
  change id.toNat = _ % 4294967296 at hsame
  change id.toNat < 4294967296 at hlt
  omega

lemma nodup_ids_append_gapIds
    (h : ∀ id ∈ s.functions.ids, id.toNat + count < UInt32.size) (hcount : count ≤ UInt32.size) :
    (s.functions.ids ++ (List.range count).map s.gapId).Nodup := by
  refine List.nodup_append.mpr ⟨s.functions.nodup, nodup_gapIds hcount, ?_⟩
  rintro other hother _ hgap rfl
  obtain ⟨n, hn, rfl⟩ := List.mem_map.mp hgap
  obtain ⟨id, hid, hle, hnext⟩ := exists_greatest (List.ne_nil_of_mem hother)
  rw [List.mem_range] at hn
  have hroom := h id hid
  have hnat := toNat_gapId hnext n
  rw [Nat.mod_eq_of_lt (by omega)] at hnat
  have := hle _ hother
  omega

end Script

namespace Script.Accounted

variable {bytes : Array UInt8} {s declared : Script} {base : Nat} {count : UInt32} {found : Findings}
variable (h : s.Accounted bytes declared base count found)
include h

lemma isBlank : declared.IsBlank := (Read.declarations_answers.of_ok h.sections).1

lemma holdsStorable : declared.HoldsStorable := (Read.declarations_answers.of_ok h.sections).2

lemma isDeclared : ∀ f ∈ declared.functions.records, f.isDeclared = true :=
  fun f hf => (h.holdsStorable.functions f hf).declared

lemma isBound : found.IsBound declared found.gaps.length := by
  obtain ⟨n, hn⟩ := (Read.region_binds declared).of_ok h.region
  have hlength := congrArg List.length hn.ids
  rw [List.length_map, List.length_map, List.length_range] at hlength
  rw [hlength]
  exact hn

lemma length_gaps_lt : found.gaps.length < UInt32.size := by
  have hsize : ∀ size ∈ found.gaps.map fun gap => codeSize gap.2.code, 4 ≤ size := by
    intro size hsize
    obtain ⟨gap, hgap, rfl⟩ := List.mem_map.mp hsize
    have hloose := h.isBound.gaps gap hgap
    obtain ⟨i, rest, hcode⟩ := List.exists_cons_of_ne_nil hloose.code_ne_nil
    have hread := hloose.code i (hcode ▸ List.mem_cons_self)
    have hi : declared.Encodes i := hread.binds declared fun _ hs => hs
    have hfour := hi.four_dvd_size
    have hpos := i.size_pos
    rw [hcode, codeSize_cons]
    omega
  have hsum := List.card_nsmul_le_sum _ 4 hsize
  rw [List.length_map] at hsum
  change found.gaps.length * 4 ≤ _ at hsum
  have htotal := h.accounts.total
  have hcount := count.toNat_lt
  change found.gaps.length < 4294967296
  change count.toNat < 4294967296 at hcount
  omega

lemma nodup_gapIds : (found.gaps.map fun gap => gap.2.id).Nodup := by
  rw [h.isBound.ids]
  exact Script.nodup_gapIds h.length_gaps_lt.le

lemma functions_eq :
    s.functions = (found.gaps.foldl Findings.addGap (found.filled declared)).functions := by
  rw [h.result]
  exact h.accounts.functions_apply

lemma perm_undeclared : s.undeclared.Perm (found.gaps.map Prod.snd) := by
  have hperm := Findings.perm_undeclared_addGaps (s := found.filled declared)
    (fun f hf => Findings.isDeclared_of_mem_filled h.isDeclared hf)
    (fun gap hgap => (h.isBound.gaps gap hgap).isDeclared) h.nodup_gapIds
  rwa [← h.functions_eq] at hperm

lemma id_mem_of_mem_declared {f : Function} (hf : f ∈ s.declared) : f.id ∈ declared.functions.ids := by
  obtain ⟨hf, hdeclared⟩ := List.mem_filter.mp hf
  rw [h.functions_eq] at hf
  rcases Findings.mem_of_mem_addGaps hf with hf | hf
  · rw [← found.ids_filled declared]
    exact List.mem_map_of_mem hf
  · obtain ⟨gap, hgap, rfl⟩ := List.mem_map.mp hf
    rw [(h.isBound.gaps gap hgap).isDeclared] at hdeclared
    cases hdeclared

lemma exists_mem_declared {id : RecordId} (hid : id ∈ declared.functions.ids)
    (hnext : declared.nextFunctionId = id + 1) : ∃ f ∈ s.declared, f.id = id := by
  rw [← found.ids_filled declared] at hid
  obtain ⟨f, hf, rfl⟩ := List.mem_map.mp hid
  -- To come back to it, the ids would have to go through all numbers.
  have hkept : f.id ∉ found.gaps.map fun gap => gap.2.id := by
    rw [h.isBound.ids]
    intro hmem
    obtain ⟨n, hn, he⟩ := List.mem_map.mp hmem
    have hlt := h.length_gaps_lt
    rw [List.mem_range] at hn
    exact gapId_ne hnext (by omega) he
  refine ⟨f, List.mem_filter.mpr ⟨?_, Findings.isDeclared_of_mem_filled h.isDeclared hf⟩, rfl⟩
  rw [h.functions_eq]
  exact Findings.mem_addGaps_of_mem hf hkept

/-- The script that results tells whether the ids of functions without declaration start again from
zero. -/
theorem leavesIds_iff :
    s.LeavesIds ↔ ∀ id ∈ declared.functions.ids, id.toNat + found.gaps.length < UInt32.size := by
  have hlength : s.undeclared.length = found.gaps.length := by
    rw [h.perm_undeclared.length_eq, List.length_map]
  unfold LeavesIds
  rw [hlength]
  constructor
  -- Only the greatest id matters, and its function is still there to witness it.
  · intro hleaves id hid
    obtain ⟨greatest, hmem, hle, hnext⟩ := exists_greatest (List.ne_nil_of_mem hid)
    obtain ⟨f, hf, rfl⟩ := h.exists_mem_declared hmem hnext
    have hroom := hleaves f hf
    have hgreatest := hle id hid
    omega
  · exact fun hroom f hf => hroom f.id (h.id_mem_of_mem_declared hf)

end Script.Accounted

end ScriptContainer
