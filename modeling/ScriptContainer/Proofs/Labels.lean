import ScriptContainer.Proofs.Targets

/-!
# Where labels stand

The labels of a function take the places of its label instructions, from the last label and the
first instruction on. In a container that has been built, the address of a label leads from the
section of the code to the word of its instruction.
-/

namespace ScriptContainer

namespace Instruction

end Instruction

/-- The label with the address of an instruction that ends at `stop`. -/
def Label.addressed (l : Label) (stop : UInt32) : Label := { l with address := stop / 4 }

namespace Function

variable {labels : Registry Label} {ends : List UInt32} {k : Nat} {l : Label}

lemma addressLabels_eq (labels : Registry Label) (ends : List UInt32) :
    addressLabels labels ends =
      ((labels.records.reverse.zip ends).map fun pair => pair.1.addressed pair.2).foldl
        Registry.replace labels := by
  rw [List.foldl_map]
  rfl

/-- A label takes the end of the label instruction that is as far from the first as the label is
from the last. -/
lemma address_eq (hl : (addressLabels labels ends).records.reverse[k]? = some l) {stop : UInt32}
    (hstop : ends[k]? = some stop) : l.address = stop / 4 := by
  rw [addressLabels_eq] at hl
  let addressed := (labels.records.reverse.zip ends).map fun pair => pair.1.addressed pair.2
  change (addressed.foldl Registry.replace labels).records.reverse[k]? = some l at hl
  have hids : (addressed.foldl Registry.replace labels).ids = labels.ids :=
    Registry.ids_foldl_replace addressed labels
  have haddressed : addressed.map Keyed.id =
      (labels.ids.reverse.zip ends).map Prod.fst := by
    rw [Registry.ids, ← List.map_reverse, List.zip_map_left, List.map_map, List.map_map]
    rfl
  have hn : (addressed.map Keyed.id).Nodup := by
    rw [haddressed, List.zip_eq_zip_take_min, List.map_fst_zip (by simp)]
    exact (List.nodup_reverse.mpr labels.nodup).sublist (List.take_sublist _ _)
  have hid : labels.ids.reverse[k]? = some l.id := by
    rw [← hids, Registry.ids, ← List.map_reverse, List.getElem?_map, hl]
    rfl
  rw [Registry.ids, ← List.map_reverse, List.getElem?_map, Option.map_eq_some_iff] at hid
  obtain ⟨before, hbefore, hsame⟩ := hid
  have hmem : before.addressed stop ∈ addressed :=
    List.mem_map.mpr ⟨(before, stop),
      List.mem_of_getElem? (List.getElem?_zip_eq_some.mpr ⟨hbefore, hstop⟩), rfl⟩
  have hheld : before.id ∈ labels.ids :=
    List.mem_map_of_mem (List.mem_reverse.mp (List.mem_of_getElem? hbefore))
  have hget := Registry.get?_foldl_replace_of_mem hn labels hmem hheld
  have hself : (addressed.foldl Registry.replace labels).get? l.id = some l :=
    Registry.get?_of_mem _ (List.mem_reverse.mp (List.mem_of_getElem? hl))
  change Registry.get? _ before.id = _ at hget
  rw [show before.id = l.id from hsame, hself] at hget
  obtain rfl := Option.some.inj hget
  rfl

lemma exists_address (hcount : labels.size ≤ ends.length)
    (hl : (addressLabels labels ends).records.reverse[k]? = some l) :
    ∃ stop, ends[k]? = some stop ∧ l.address = stop / 4 := by
  have hsize : (addressLabels labels ends).records.length = labels.records.length := by
    have hids := congrArg List.length (Registry.ids_foldl_replace
      ((labels.records.reverse.zip ends).map fun pair => pair.1.addressed pair.2) labels)
    rwa [← addressLabels_eq, Registry.ids, Registry.ids, List.length_map, List.length_map] at hids
  have hk := (List.getElem?_eq_some_iff.mp hl).1
  rw [List.length_reverse, hsize] at hk
  have hstop := List.getElem?_eq_getElem (hk.trans_le hcount)
  exact ⟨_, hstop, address_eq hl hstop⟩

lemma markers_congr {code other : List Placed} (h : code.map Placed.sight = other.map Placed.sight) :
    (code.filter fun p => p.instruction.isLabel).map Placed.stop =
      (other.filter fun p => p.instruction.isLabel).map Placed.stop := by
  have hsight (code : List Placed) : (code.filter fun p => p.instruction.isLabel).map Placed.stop =
      ((code.map Placed.sight).filter fun seen => seen.1 == .label).map Prod.snd := by
    rw [List.filter_map, List.map_map]
    rfl
  rw [hsight, hsight, h]

lemma length_markers {code : Body .bound} {ends : List UInt32} (h : ends.length = code.length) :
    (((code.zipWith Placed.mk ends).filter fun p => p.instruction.isLabel).map Placed.stop).length =
      code.countP Instruction.isLabel := by
  have hcount : (code.zipWith Placed.mk ends).countP (fun p => p.instruction.isLabel) =
      ((code.zipWith Placed.mk ends).map Placed.instruction).countP Instruction.isLabel := by
    rw [List.countP_map]
    rfl
  rw [List.length_map, ← List.countP_eq_length_filter, hcount, Placed.map_instruction_zipWith h]

end Function

namespace Script

variable {s after : Script} {options : Options} {built : Built} {f g : Function} {found : Ends}

end Script

end ScriptContainer
