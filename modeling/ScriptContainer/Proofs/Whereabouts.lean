import ScriptContainer.Proofs.RecordBytes

/-!
# Where code is written

The bytes of a function stand at its plot, those of an instruction before its end, and those of a
table at its start. The ends that are recorded for a function are those of its plot.
-/

namespace ScriptContainer

/-- In bytes that begin at `origin`, the bytes `part` stand at `start`. -/
def StandsAt (origin : Nat) (bytes : List UInt8) (start : Nat) (part : List UInt8) : Prop :=
  ∃ front back, bytes = front ++ (part ++ back) ∧ start = origin + front.length

namespace StandsAt

variable {origin start middle : Nat} {bytes inner part more : List UInt8}

lemma trans (h : StandsAt origin bytes middle inner) (hi : StandsAt middle inner start part) :
    StandsAt origin bytes start part := by
  obtain ⟨front, back, rfl, rfl⟩ := h
  obtain ⟨front', back', rfl, rfl⟩ := hi
  refine ⟨front ++ front', back' ++ back, by simp, ?_⟩
  rw [List.length_append, Nat.add_assoc]

lemma left (origin : Nat) (part more : List UInt8) : StandsAt origin (part ++ more) origin part :=
  ⟨[], more, rfl, rfl⟩

lemma right (origin : Nat) (more part : List UInt8) :
    StandsAt origin (more ++ part) (origin + more.length) part :=
  ⟨more, [], by simp, rfl⟩

lemma append_left (more : List UInt8) (h : StandsAt (origin + more.length) bytes start part) :
    StandsAt origin (more ++ bytes) start part :=
  (right origin more bytes).trans h

lemma append_right (more : List UInt8) (h : StandsAt origin bytes start part) :
    StandsAt origin (bytes ++ more) start part :=
  (left origin bytes more).trans h

lemma shift (h : StandsAt origin bytes start part) (base : Nat) :
    StandsAt (base + origin) bytes (base + start) part := by
  obtain ⟨front, back, rfl, rfl⟩ := h
  exact ⟨front, back, rfl, (Nat.add_assoc _ _ _).symm⟩

end StandsAt

/-- The ends of the instructions of a function. -/
def Plot.ends (p : Plot) : Ends := ⟨p.id, (p.nesting.stops p.start).map UInt32.ofNat⟩

namespace Nesting

variable {s : Script} {n : Nesting} {start : Nat}

lemma mem_allCode_of_mem_plots {p : Plot} (hp : p ∈ n.plots start) {i : Instruction .bound}
    (hi : i ∈ p.nesting.allCode) : i ∈ n.allCode := by
  induction n generalizing start with
  | done => simp [plots] at hp
  | step j rest ih => exact List.mem_cons_of_mem _ (ih hp)
  | host j id inner rest ihi ihr =>
    rw [plots, List.mem_cons, List.mem_append] at hp
    rw [allCode, List.mem_cons, List.mem_append]
    rcases hp with rfl | hp | hp
    · exact .inr (.inl hi)
    · exact .inr (.inl (ihi hp))
    · exact .inr (.inr (ihr hp))

lemma mem_allCode_of_mem_code {i : Instruction .bound} (hi : i ∈ n.code) : i ∈ n.allCode := by
  induction n with
  | done => exact hi
  | step j rest ih =>
    rw [code, List.mem_cons] at hi
    rw [allCode, List.mem_cons]
    exact hi.imp_right ih
  | host j id inner rest _ ih =>
    rw [code, List.mem_cons] at hi
    rw [allCode, List.mem_cons, List.mem_append]
    exact hi.imp_right fun h => .inr (ih h)

lemma standsAt_plot (h : ∀ i ∈ n.allCode, s.Encodes i) {p : Plot} (hp : p ∈ n.plots start) :
    StandsAt start (n.bytes s.bytesOf) p.start (p.nesting.bytes s.bytesOf) := by
  induction n generalizing start with
  | done => simp [plots] at hp
  | step i rest ih =>
    rw [allCode, List.forall_mem_cons] at h
    have := ih h.2 hp
    rw [← h.1.length_bytesOf] at this
    exact this.append_left _
  | host i id inner rest ihi ihr =>
    rw [allCode, List.forall_mem_cons, List.forall_mem_append] at h
    obtain ⟨hi, hinner, hrest⟩ := h
    rw [plots, List.mem_cons, List.mem_append, ← hi.length_bytesOf] at hp
    rw [bytes]
    refine StandsAt.append_left _ ?_
    rcases hp with rfl | hp | hp
    · exact .left _ _ _
    · exact (ihi hinner hp).append_right _
    · rw [← length_bytes hinner] at hp
      exact (ihr hrest hp).append_left _

lemma standsAt_instruction (h : ∀ i ∈ n.allCode, s.Encodes i) {i : Instruction .bound} {stop : Nat}
    (hi : (i, stop) ∈ n.code.zip (n.stops start)) :
    ∃ first, stop = first + i.size ∧ StandsAt start (n.bytes s.bytesOf) first (s.bytesOf i) := by
  induction n generalizing start with
  | done => simp [code] at hi
  | step j rest ih =>
    rw [allCode, List.forall_mem_cons] at h
    rw [code, stops, List.zip_cons_cons, List.mem_cons] at hi
    rcases hi with hi | hi
    · obtain ⟨rfl, rfl⟩ := Prod.mk.inj hi
      exact ⟨start, rfl, .left _ _ _⟩
    · obtain ⟨first, rfl, hstands⟩ := ih h.2 hi
      rw [← h.1.length_bytesOf] at hstands
      exact ⟨first, rfl, hstands.append_left _⟩
  | host j id inner rest _ ih =>
    rw [allCode, List.forall_mem_cons, List.forall_mem_append] at h
    obtain ⟨hj, hinner, hrest⟩ := h
    rw [code, stops, List.zip_cons_cons, List.mem_cons] at hi
    rcases hi with hi | hi
    · obtain ⟨rfl, rfl⟩ := Prod.mk.inj hi
      exact ⟨start, rfl, .left _ _ _⟩
    · obtain ⟨first, rfl, hstands⟩ := ih hrest hi
      rw [← length_bytes hinner, ← hj.length_bytesOf] at hstands
      exact ⟨first, rfl, (hstands.append_left _).append_left _⟩

lemma ends_perm (n : Nesting) (start : Nat) :
    (n.ends start).Perm ((n.plots start).map Plot.ends) := by
  induction n generalizing start with
  | done => exact .nil
  | step i rest ih => exact ih _
  | host i id inner rest ihi ihr =>
    rw [ends, plots, List.map_cons, List.map_append]
    exact List.perm_middle.trans (.cons _ ((ihi _).append (ihr _)))

lemma exists_code {n : Nesting} {i : Instruction .bound} (start : Nat) (h : i ∈ n.allCode) :
    i ∈ n.code ∨ ∃ p ∈ n.plots start, i ∈ p.nesting.code := by
  induction n generalizing start with
  | done => cases h
  | step j rest ih =>
    rw [allCode, List.mem_cons] at h
    rw [code, plots, List.mem_cons, or_assoc]
    exact h.imp id (ih _)
  | host j id inner rest ihi ihr =>
    rw [allCode, List.mem_cons, List.mem_append] at h
    rw [code, plots, List.mem_cons]
    rcases h with h | h | h
    · exact .inl (.inl h)
    · right
      rcases ihi (start + j.size) h with h | ⟨p, hp, h⟩
      · exact ⟨_, List.mem_cons_self, h⟩
      · exact ⟨p, List.mem_cons_of_mem _ (List.mem_append_left _ hp), h⟩
    · rcases ihr (start + j.size + inner.size) h with h | ⟨p, hp, h⟩
      · exact .inl (.inr h)
      · exact .inr ⟨p, List.mem_cons_of_mem _ (List.mem_append_right _ hp), h⟩

end Nesting

section Forest

variable {s : Script} {roots : List Root} {start : Nat} {p : Plot}

lemma mem_forestCode_of_mem_plots (hp : p ∈ forestPlots start roots) {i : Instruction .bound}
    (hi : i ∈ p.nesting.allCode) : i ∈ forestCode roots := by
  induction roots generalizing start with
  | nil => simp [forestPlots] at hp
  | cons root roots ih =>
    rw [forestPlots, List.mem_append, Root.plots, List.mem_cons] at hp
    rw [forestCode, List.flatMap_cons, List.mem_append]
    rcases hp with (rfl | hp) | hp
    · exact .inl hi
    · exact .inl (Nesting.mem_allCode_of_mem_plots hp hi)
    · exact .inr (ih hp)

lemma exists_plot_of_mem_forestCode {i : Instruction .bound} (start : Nat)
    (h : i ∈ forestCode roots) : ∃ p ∈ forestPlots start roots, i ∈ p.nesting.code := by
  induction roots generalizing start with
  | nil => cases h
  | cons root roots ih =>
    rw [forestCode, List.flatMap_cons, List.mem_append] at h
    rw [forestPlots, Root.plots]
    rcases h with h | h
    · rcases Nesting.exists_code start h with h | ⟨p, hp, h⟩
      · exact ⟨_, List.mem_append_left _ List.mem_cons_self, h⟩
      · exact ⟨p, List.mem_append_left _ (List.mem_cons_of_mem _ hp), h⟩
    · obtain ⟨p, hp, h⟩ := ih (start + root.nesting.size) h
      exact ⟨p, List.mem_append_right _ hp, h⟩

lemma standsAt_forest (h : ∀ i ∈ forestCode roots, s.Encodes i) (hp : p ∈ forestPlots start roots) :
    StandsAt start (forestBytes s.bytesOf roots) p.start (p.nesting.bytes s.bytesOf) := by
  induction roots generalizing start with
  | nil => simp [forestPlots] at hp
  | cons root roots ih =>
    rw [forestCode, List.flatMap_cons, List.forall_mem_append] at h
    rw [forestPlots, List.mem_append, Root.plots, List.mem_cons] at hp
    rw [forestBytes, List.flatMap_cons]
    rcases hp with (rfl | hp) | hp
    · exact .left _ _ _
    · exact (Nesting.standsAt_plot h.1 hp).append_right _
    · rw [← Nesting.length_bytes h.1] at hp
      exact (ih h.2 hp).append_left _

lemma forestEnds_perm (start : Nat) (roots : List Root) :
    (forestEnds start roots).Perm ((forestPlots start roots).map Plot.ends) := by
  induction roots generalizing start with
  | nil => exact .nil
  | cons root roots ih =>
    rw [forestEnds, forestPlots, List.map_append]
    refine List.Perm.append ?_ (ih _)
    exact (List.perm_append_singleton _ _).trans (.cons _ (root.nesting.ends_perm start))

lemma standsAt_tables {entries : List (TableRef × Table)} {stop : Nat}
    (h : Tiles start (entries.map fun entry => entry.2.span) stop)
    (hlength : ∀ entry ∈ entries, entry.2.bytes.length = entry.2.payloadSize)
    {entry : TableRef × Table} (he : entry ∈ entries) :
    StandsAt start (entries.flatMap fun entry => entry.2.bytes) entry.2.start.toNat
      entry.2.bytes := by
  induction entries generalizing start with
  | nil => cases he
  | cons first entries ih =>
    obtain ⟨rfl, -, h⟩ := h
    obtain ⟨hfirst, hlength⟩ := List.forall_mem_cons.mp hlength
    rw [List.flatMap_cons]
    rcases List.mem_cons.mp he with rfl | he
    · exact .left _ _ _
    · refine StandsAt.append_left _ ?_
      rw [hfirst]
      exact ih h hlength he

end Forest

lemma mem_zip_of_getElem? {α β : Type} {xs : List α} {ys : List β} {k : Nat} {x : α} {y : β}
    (hx : xs[k]? = some x) (hy : ys[k]? = some y) : (x, y) ∈ xs.zip ys := by
  refine List.mem_of_getElem? (i := k) ?_
  rw [List.getElem?_zip_eq_some]
  exact ⟨hx, hy⟩

namespace Script

/-- What is written of a script in place, from the offset `base` on: every part once, every
function at its plot and with the ends of its instructions recorded, every table at its start. -/
structure Emitted (s : Script) (plots : List Plot) (stop base : Nat) (emission : Emission) :
    Prop where
  parts : emission.seen.parts.Perm
    (s.functions.ids.map .function ++ s.allTables.map fun entry => .table entry.1)
  encodes : ∀ p ∈ plots, ∀ i ∈ p.nesting.allCode, s.Encodes i
  functions : ∀ p ∈ plots, StandsAt 0 emission.writer.bytes.toList (base + p.start)
    (p.nesting.bytes s.bytesOf)
  tables : ∀ entry ∈ s.allTables, entry.2.bytes.length = entry.2.payloadSize ∧
    StandsAt 0 emission.writer.bytes.toList (base + entry.2.start.toNat) entry.2.bytes
  ends : ∀ p ∈ plots, emission.ends.get? p.id = some p.ends
  position : emission.writer.position = base + stop + 4 * s.padding.code.length

variable {s : Script} {roots : List Root} {stop : Nat} {w : Writer}

lemma Stands.emitted (h : s.Stands roots stop) (hcode : ∀ i ∈ forestCode roots, s.Encodes i)
    (htables : ∀ entry ∈ s.allTables, entry.2.Encodes s) :
    s.Emitted (forestPlots 0 roots) stop w.position (s.written roots w) := by
  have hlengths := h.length_tables htables
  have hforest := length_forestBytes hcode
  have hregion (start : Nat) (part : List UInt8)
      (hpart : StandsAt 0 (s.regionBytes roots) start part) :
      StandsAt 0 (s.written roots w).writer.bytes.toList (w.position + start) part := by
    change StandsAt 0 (w.append _).bytes.toList _ _
    rw [Writer.toList_append]
    have hbase : 0 + w.bytes.toList.length = w.position := by simp [Writer.position]
    refine StandsAt.append_left _ ?_
    rw [hbase]
    exact hpart.shift w.position
  refine ⟨?_, fun p hp i hi => hcode i (mem_forestCode_of_mem_plots hp hi), fun p hp => ?_,
    fun entry he => ⟨hlengths entry he, ?_⟩, fun p hp => ?_, ?_⟩
  · have hreverse := List.reverse_perm
      ((forestIds roots).map Part.function ++ s.allTables.map fun entry => Part.table entry.1)
    have honce := (h.once.map Part.function).append_right
      (s.allTables.map fun entry => Part.table entry.1)
    change (_ ++ []).Perm _
    rw [List.append_nil]
    exact hreverse.trans honce
  · exact hregion _ _ ((standsAt_forest hcode hp).append_right _)
  · refine hregion _ _ (StandsAt.append_left _ ?_)
    rw [Nat.zero_add, hforest]
    exact (standsAt_tables h.tables hlengths he).append_right _
  · have hperm := forestEnds_perm 0 roots
    have hids : ((forestEnds 0 roots).map Ends.function).Nodup := by
      rw [(hperm.map Ends.function).nodup_iff, List.map_map]
      change ((forestPlots 0 roots).map Plot.id).Nodup
      rw [map_id_forestPlots, h.once.nodup_iff]
      exact s.functions.nodup
    exact Registry.get?_foldl_insert_of_mem hids .empty
      (hperm.mem_iff.mpr (List.mem_map_of_mem hp))
  · have hlength := (h.length_regionBytes hcode htables).1
    change (w.append _).position = _
    rw [Writer.position_append, hlength, Nat.add_assoc]

/-- The emission holds every part of the script once and where it was laid out, the code region
starting at `base` and taking `stop` bytes without filler words, and the ends of the instructions of
every function. -/
structure WrittenInPlace (s : Script) (stop base : Nat) (emission : Emission) : Prop where
  position : emission.writer.position = base + stop + 4 * s.padding.code.length
  parts : emission.seen.parts.Perm
    (s.functions.ids.map .function ++ s.allTables.map fun entry => .table entry.1)
  /-- The bytes of a function, those of the functions inside included, take its place. -/
  functions : ∀ f ∈ s.functions.records, ∃ n : Nesting, n.code = f.code ∧
    f.codeEnd.toNat = f.codeStart.toNat + (n.bytes s.bytesOf).length ∧
    StandsAt 0 emission.writer.bytes.toList (base + f.codeStart.toNat) (n.bytes s.bytesOf)
  /-- The opcode word of an instruction stands before its end by the size of the instruction. -/
  instructions : ∀ f ∈ s.functions.records, ∃ found, emission.ends.get? f.id = some found ∧
    found.offsets.length = f.code.length ∧
    ∀ (k : Nat) (i : Instruction .bound) (stop : UInt32),
      f.code[k]? = some i → found.offsets[k]? = some stop →
      ∃ first ws, stop.toNat = first + i.size ∧ i.encode s = .ok ws ∧
        ws.head? = some i.opcodeWord ∧
        StandsAt 0 emission.writer.bytes.toList (base + first) (bytesOfWords ws)
  tables : ∀ entry ∈ s.allTables, entry.2.bytes.length = entry.2.payloadSize ∧
    StandsAt 0 emission.writer.bytes.toList (base + entry.2.start.toNat) entry.2.bytes

lemma Emitted.writtenInPlace {base : Nat} {emission : Emission} (h : s.Stands roots stop)
    (he : s.Emitted (forestPlots 0 roots) stop base emission) :
    s.WrittenInPlace stop base emission where
  position := he.position
  parts := he.parts
  tables := he.tables
  functions f hf := by
    obtain ⟨p, hp, -, hstart, hend, hcode⟩ := h.exists_plot hf
    refine ⟨p.nesting, hcode.symm, ?_, ?_⟩
    · rw [hstart, hend, Nesting.length_bytes (he.encodes p hp)]
      rfl
    · rw [hstart]
      exact he.functions p hp
  instructions f hf := by
    obtain ⟨p, hp, hid, -, -, hcode⟩ := h.exists_plot hf
    refine ⟨p.ends, hid ▸ he.ends p hp, ?_, ?_⟩
    · rw [Plot.ends, List.length_map, Nesting.length_stops, hcode]
    · intro k i offset hi hoffset
      rw [Plot.ends, List.getElem?_map, Option.map_eq_some_iff] at hoffset
      obtain ⟨stop', hstop', rfl⟩ := hoffset
      rw [hcode] at hi
      have hmem : (i, stop') ∈ p.instructions := mem_zip_of_getElem? hi hstop'
      have hle := (bounds_of_mem_instructions hp hmem).2
      have hcodeStop := h.tables.start_le_stop
      have hfits := h.fits
      obtain ⟨first, rfl, hstands⟩ := Nesting.standsAt_instruction (he.encodes p hp) hmem
      obtain ⟨ws, hws⟩ := he.encodes p hp i (Nesting.mem_allCode_of_mem_code (List.of_mem_zip hmem).1)
      rw [bytesOf, hws] at hstands
      refine ⟨first, ws, ?_, hws, Instruction.head?_of_encode hws, ?_⟩
      · exact UInt32.toNat_ofNat_of_lt' (by omega)
      · exact (he.functions p hp).trans (hstands.shift base)

end Script

end ScriptContainer
