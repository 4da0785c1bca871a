import ScriptContainer.Container
import ScriptContainer.Proofs.Retaining
import ScriptContainer.Proofs.Whereabouts

/-!
# Building containers

A container is written with a header of zeros, which is filled in once the offsets of the sections
are known. The second writing of declarations and code takes as many bytes as the first, so that
building can fail only for what the script holds.
-/

namespace ScriptContainer

/-- The offsets at which parts start that follow each other, and the offset after them. -/
def startsFrom : Nat → List (List UInt8) → List Nat
  | start, [] => [start]
  | start, part :: rest => start :: startsFrom (start + part.length) rest

/-- The bytes of a container: the header, the sections before the code, and the code region after
the count of its words. -/
def containerBytes (sections : List (List UInt8)) (region : List UInt8) : List UInt8 :=
  let starts := startsFrom headerSize sections
  magic ++ (bytesOfWords (starts.map fun start => UInt32.ofNat (start / 4)) ++
    (bytesOfWord 0 ++ (sections.flatten ++
      (bytesOfWord (UInt32.ofNat (region.length / 4)) ++ region))))

namespace Script

/-- The bytes of the sections before the code. -/
def sectionBytes (s : Script) : List (List UInt8) :=
  [bytesOfWords s.padding.front,
    bytesOfList Function.declaration s.declared,
    bytesOfList Variable.bytes (s.variablesIn .static),
    bytesOfList Table.declaration s.tables.records ++ bytesOfWords s.padding.tables,
    bytesOfList Variable.bytes (s.variablesIn .constant),
    bytesOfList Import.bytes s.imports.records,
    bytesOfList Variable.bytes (s.variablesIn .global)]

/-- The values of all variables that are written are of their types. -/
def ValuesFit (s : Script) : Prop :=
  (∀ f ∈ s.declared, ∀ v ∈ f.vars.records, v.value.fits v.type) ∧
    (∀ v ∈ s.variablesIn .static, v.value.fits v.type) ∧
    (∀ v ∈ s.variablesIn .constant, v.value.fits v.type) ∧
    ∀ v ∈ s.variablesIn .global, v.value.fits v.type

/-- The bytes up to the code region before the header is filled in. -/
def openingBytes (s : Script) : List UInt8 :=
  magic ++ (bytesOfWords (List.replicate (sectionCount + 1) 0) ++
    (s.sectionBytes.flatten ++ bytesOfWord 0))

end Script

lemma Writer.position_empty_append (bytes : List UInt8) :
    (Writer.empty.append bytes).position = bytes.length := by
  rw [Writer.position_append]
  exact Nat.zero_add _

namespace Script

variable {s : Script}

lemma opening_yields (s : Script) :
    YieldsIf s.opening
      ⟨Writer.empty.append s.openingBytes, startsFrom headerSize s.sectionBytes⟩ s.ValuesFit
      Error.IsInput := by
  let header := magic ++ bytesOfWords (List.replicate (sectionCount + 1) 0)
  obtain ⟨w0, hw0⟩ : ∃ w0, w0 = Writer.empty.append header := ⟨_, rfl⟩
  have hheader : (Writer.empty.append magic).words (List.replicate (sectionCount + 1) 0) = w0 := by
    rw [hw0, Writer.words_eq, Writer.append_append]
  have hposition : w0.position = headerSize := by
    rw [hw0]
    exact Writer.position_empty_append header
  have h0 : 4 ∣ w0.position := by
    rw [hposition]
    exact ⟨11, rfl⟩
  have h1 := Writer.four_dvd_position_append h0 (four_dvd_bytesOfWords s.padding.front)
  unfold opening ValuesFit
  simp only [hheader, Writer.words_eq]
  refine (Writer.functions_yields h1 s.declared).andThen fun _ => ?_
  have h2 := Writer.four_dvd_position_append h1
    (four_dvd_bytesOfList Function.four_dvd_declaration s.declared)
  refine (Writer.vars_yields h2 (s.variablesIn .static)).andThen fun _ => ?_
  have h3 := Writer.four_dvd_position_append h2
    (four_dvd_bytesOfList Variable.four_dvd_bytes (s.variablesIn .static))
  rw [Writer.tables_eq h3]
  have h4 := Writer.four_dvd_position_append (Writer.four_dvd_position_append h3
    (four_dvd_bytesOfList Table.four_dvd_declaration s.tables.records))
    (four_dvd_bytesOfWords s.padding.tables)
  refine (Writer.vars_yields h4 (s.variablesIn .constant)).andThen fun _ => ?_
  have h5 := Writer.four_dvd_position_append h4
    (four_dvd_bytesOfList Variable.four_dvd_bytes (s.variablesIn .constant))
  rw [Writer.imports_eq h5]
  have h6 := Writer.four_dvd_position_append h5
    (four_dvd_bytesOfList Import.four_dvd_bytes s.imports.records)
  refine (Writer.vars_yields h6 (s.variablesIn .global)).andReturn fun _ => congrArg Except.ok ?_
  refine congrArg₂ Opening.mk ?_ ?_
  · simp only [hw0, header, Writer.word, Writer.append_append, openingBytes, sectionBytes,
      List.flatten_cons, List.flatten_nil, List.append_nil, List.append_assoc]
  · simp only [Writer.position_append, hposition, sectionBytes, startsFrom, List.length_append,
      Nat.add_assoc]

end Script

namespace Writer

lemma patch_eq (front : List UInt8) {old bytes : List UInt8} (back : List UInt8)
    (h : bytes.length = old.length) :
    (empty.append (front ++ (old ++ back))).patch front.length bytes =
      .ok (empty.append (front ++ (bytes ++ back))) := by
  have hsize : (empty.append (front ++ (old ++ back))).bytes.size =
      front.length + (old.length + back.length) := by
    simp [empty, append]
  have htake : back.take (front.length + (old.length + back.length) -
      (front.length + old.length)) = back := List.take_of_length_le (by omega)
  unfold patch
  rw [if_pos (by omega), hsize]
  refine congrArg Except.ok (eq_of_toList ?_)
  simp [empty, append, h, htake]

lemma patch_starts {starts : List Nat} (index : Nat) {front old back : List UInt8}
    (hfront : front.length = magic.length + index * 4) (hold : old.length = 4 * starts.length) :
    (starts.zipIdx index).foldlM
      (fun w (start, index) => w.patchWord (magic.length + index * 4) (UInt32.ofNat (start / 4)))
      (empty.append (front ++ (old ++ back))) =
      .ok (empty.append (front ++
        (bytesOfWords (starts.map fun start => UInt32.ofNat (start / 4)) ++ back))) := by
  induction starts generalizing index front old with
  | nil =>
    obtain rfl := List.length_eq_zero_iff.mp hold
    rfl
  | cons start starts ih =>
    let word := bytesOfWord (UInt32.ofNat (start / 4))
    obtain ⟨first, rest, rfl, hlength⟩ : ∃ first rest, old = first ++ rest ∧ first.length = 4 :=
      ⟨old.take 4, old.drop 4, (List.take_append_drop 4 old).symm, by
        rw [List.length_take, hold, List.length_cons]
        omega⟩
    have hpatch : (empty.append (front ++ (first ++ rest ++ back))).patchWord
        (magic.length + index * 4) (UInt32.ofNat (start / 4)) =
        .ok (empty.append ((front ++ word) ++ (rest ++ back))) := by
      rw [← hfront, patchWord, List.append_assoc first, patch_eq _ _ (by rw [hlength]; rfl),
        List.append_assoc front]
    have hrest : rest.length = 4 * starts.length := by
      simp only [List.length_append, hlength, List.length_cons] at hold
      omega
    have hnext : (front ++ word).length = magic.length + (index + 1) * 4 := by
      rw [List.length_append, hfront, length_bytesOfWord]
      omega
    rw [List.zipIdx_cons, List.foldlM_cons]
    change (patchWord _ _ _ >>= _) = _
    rw [hpatch]
    refine (ih (index + 1) hnext hrest).trans ?_
    rw [List.map_cons, bytesOfWords, bytesOfWords, List.flatMap_cons, List.append_assoc,
      List.append_assoc]

end Writer

namespace Script

variable {s t : Script}

lemma length_declaration_untargeted (f : Function) :
    f.untargeted.declaration.length = f.declaration.length := by
  have hlabel (l : Label) : l.unaddressed.bytes.length = l.bytes.length := by
    simp only [Label.bytes, List.length_append, length_bytesOfWords, List.length_cons]
    rfl
  have hlabels : (bytesOfList Label.bytes f.untargeted.labels.records).length =
      (bytesOfList Label.bytes f.labels.records).length :=
    length_bytesOfList_map hlabel f.labels.records
  have hwords : f.untargeted.fixedWords = f.fixedWords := rfl
  simp only [Function.declaration, List.length_append, hlabels, hwords]
  rfl

lemma map_untargeted_declared (s : Script) :
    s.untargeted.declared = s.declared.map Function.untargeted := by
  rw [declared, declared, untargeted, functions_mapFunctions, Registry.records_map,
    List.filter_map]
  rfl

lemma length_declarations (h : t.untargeted = s.untargeted) :
    (bytesOfList Function.declaration t.declared).length =
      (bytesOfList Function.declaration s.declared).length := by
  rw [← length_bytesOfList_map length_declaration_untargeted t.declared, ← map_untargeted_declared,
    h, map_untargeted_declared, length_bytesOfList_map length_declaration_untargeted]

lemma sectionBytes_of_untargeted (h : t.untargeted = s.untargeted) :
    ∃ rest, s.sectionBytes = bytesOfWords s.padding.front ::
        bytesOfList Function.declaration s.declared :: rest ∧
      t.sectionBytes = bytesOfWords s.padding.front ::
        bytesOfList Function.declaration t.declared :: rest := by
  obtain ⟨himports, hvars, htables, hpadding⟩ := rest_eq_of_untargeted h
  refine ⟨_, rfl, ?_⟩
  simp only [sectionBytes, variablesIn, hpadding, hvars, htables, himports]

lemma startsFrom_head (start : Nat) (parts : List (List UInt8)) :
    (startsFrom start parts)[0]? = some start := by
  cases parts <;> rfl

lemma startsFrom_congr {start : Nat} {xs ys : List (List UInt8)}
    (h : xs.map List.length = ys.map List.length) : startsFrom start xs = startsFrom start ys := by
  induction xs generalizing start ys with
  | nil =>
    obtain rfl := List.map_eq_nil_iff.mp h.symm
    rfl
  | cons x xs ih =>
    rw [List.map_cons, eq_comm, List.map_eq_cons_iff] at h
    obtain ⟨y, ys, rfl, hlength, hrest⟩ := h
    rw [startsFrom, startsFrom, hlength, ih hrest.symm]

lemma starts_of_untargeted (h : t.untargeted = s.untargeted) :
    startsFrom headerSize t.sectionBytes = startsFrom headerSize s.sectionBytes := by
  obtain ⟨rest, hs, ht⟩ := sectionBytes_of_untargeted h
  refine startsFrom_congr ?_
  simp only [hs, ht, List.map_cons, length_declarations h]

lemma overwrite_declarations (h : t.untargeted = s.untargeted) (region : List UInt8) :
    overwrite (Writer.empty.append (s.openingBytes ++ region))
      ((startsFrom headerSize s.sectionBytes).getD 1 0)
      (Writer.empty.append (bytesOfList Function.declaration t.declared)).bytes
      ((startsFrom headerSize s.sectionBytes).getD 2 0 -
        (startsFrom headerSize s.sectionBytes).getD 1 0) .declarations =
      .ok (Writer.empty.append (t.openingBytes ++ region)) := by
  obtain ⟨rest, hs, ht⟩ := sectionBytes_of_untargeted h
  have hlength := length_declarations h
  let front := magic ++ (bytesOfWords (List.replicate (sectionCount + 1) 0) ++
    bytesOfWords s.padding.front)
  let back := rest.flatten ++ (bytesOfWord 0 ++ region)
  have hfront : (startsFrom headerSize s.sectionBytes).getD 1 0 = front.length := by
    rw [hs]
    simp [startsFrom, front, length_bytesOfWords, headerSize, magic, sectionCount]
    omega
  have hexpected : (startsFrom headerSize s.sectionBytes).getD 2 0 - front.length =
      (bytesOfList Function.declaration s.declared).length := by
    rw [← hfront, hs]
    simp [startsFrom, startsFrom_head]
  have hopening (d : List UInt8) : magic ++ (bytesOfWords (List.replicate (sectionCount + 1) 0) ++
      ((bytesOfWords s.padding.front :: d :: rest).flatten ++ bytesOfWord 0)) ++ region =
      front ++ (d ++ back) := by simp [front, back]
  have hsize : (Writer.empty.append (bytesOfList Function.declaration t.declared)).bytes.size =
      (bytesOfList Function.declaration s.declared).length := by
    rw [← hlength]
    exact Writer.position_empty_append _
  have hbytes : (Writer.empty.append (bytesOfList Function.declaration t.declared)).bytes.toList =
      bytesOfList Function.declaration t.declared := Writer.toList_append _ _
  rw [overwrite, hfront, hexpected, if_neg (not_not.mpr hsize), hbytes, openingBytes, openingBytes,
    hs, ht, hopening, hopening]
  exact Writer.patch_eq _ _ hlength

lemma length_startsFrom (start : Nat) (parts : List (List UInt8)) :
    (startsFrom start parts).length = parts.length + 1 := by
  induction parts generalizing start with
  | nil => rfl
  | cons part parts ih => rw [startsFrom, List.length_cons, List.length_cons, ih]

lemma startsFrom_last (start : Nat) (parts : List (List UInt8)) :
    (startsFrom start parts)[parts.length]? = some (start + parts.flatten.length) := by
  induction parts generalizing start with
  | nil => rfl
  | cons part rest ih =>
    rw [startsFrom, List.length_cons, List.getElem?_cons_succ, ih, List.flatten_cons,
      List.length_append, Nat.add_assoc]

lemma startsFrom_bounds {start : Nat} {parts : List (List UInt8)} (hstart : 4 ∣ start)
    (h : ∀ part ∈ parts, 4 ∣ part.length) :
    ∀ here ∈ startsFrom start parts, 4 ∣ here ∧ here ≤ start + parts.flatten.length := by
  induction parts generalizing start with
  | nil =>
    intro here hhere
    obtain rfl := List.mem_singleton.mp hhere
    exact ⟨hstart, Nat.le_add_right _ _⟩
  | cons part parts ih =>
    rw [List.forall_mem_cons] at h
    refine List.forall_mem_cons.mpr ⟨⟨hstart, Nat.le_add_right _ _⟩, fun here hhere => ?_⟩
    obtain ⟨hdvd, hle⟩ := ih (Nat.dvd_add hstart h.1) h.2 here hhere
    refine ⟨hdvd, hle.trans_eq ?_⟩
    rw [List.flatten_cons, List.length_append, Nat.add_assoc]

lemma fill_header (s : Script) (region : List UInt8) :
    (do
      let w ← (Writer.empty.append (s.openingBytes ++ region)).patchWord
        ((startsFrom headerSize s.sectionBytes).getD 7 0) (UInt32.ofNat (region.length / 4))
      ((startsFrom headerSize s.sectionBytes).zipIdx).foldlM
        (fun (w : Writer) (start, index) =>
          w.patchWord (magic.length + index * 4) (UInt32.ofNat (start / 4))) w) =
      .ok (Writer.empty.append (containerBytes s.sectionBytes region)) := by
  let zeros := bytesOfWords (List.replicate (sectionCount + 1) 0)
  let front := magic ++ (zeros ++ s.sectionBytes.flatten)
  let count := bytesOfWord (UInt32.ofNat (region.length / 4))
  have hfront : (startsFrom headerSize s.sectionBytes).getD 7 0 = front.length := by
    rw [List.getD_eq_getElem?_getD]
    refine (congrArg (Option.getD · 0) (startsFrom_last headerSize s.sectionBytes)).trans ?_
    change headerSize + s.sectionBytes.flatten.length = _
    rw [List.length_append, List.length_append, ← Nat.add_assoc]
    rfl
  have hopening : s.openingBytes ++ region = front ++ (bytesOfWord 0 ++ region) := by
    simp only [openingBytes, front, zeros, List.append_assoc]
  have hcount : (Writer.empty.append (s.openingBytes ++ region)).patchWord
      ((startsFrom headerSize s.sectionBytes).getD 7 0) (UInt32.ofNat (region.length / 4)) =
      .ok (Writer.empty.append (front ++ (count ++ region))) := by
    rw [hfront, hopening]
    exact Writer.patch_eq _ _ rfl
  have hzeros : zeros = bytesOfWords (List.replicate sectionCount 0) ++ bytesOfWord 0 := rfl
  have hsplit : front ++ (count ++ region) =
      magic ++ (bytesOfWords (List.replicate sectionCount 0) ++
        (bytesOfWord 0 ++ (s.sectionBytes.flatten ++ (count ++ region)))) := by
    simp only [front, hzeros, List.append_assoc]
  rw [hcount, hsplit]
  refine (Writer.patch_starts 0 rfl ?_).trans ?_
  · rw [length_startsFrom]
    rfl
  · rfl

/-- The container of a script in place with the roots `roots`. -/
def container (s : Script) (roots : List Root) : Built :=
  ⟨(Writer.empty.append (containerBytes s.sectionBytes (s.regionBytes roots))).bytes,
    s.openingBytes.length, (s.written roots .empty).ends⟩

/-- All code, all tables and all variables can be written. -/
structure Writable (s : Script) (roots : List Root) : Prop where
  code : ∀ i ∈ forestCode roots, s.Encodes i
  tables : ∀ entry ∈ s.allTables, entry.2.Encodes s
  values : s.ValuesFit

lemma length_openingBytes (h : t.untargeted = s.untargeted) :
    t.openingBytes.length = s.openingBytes.length := by
  obtain ⟨rest, hs, ht⟩ := sectionBytes_of_untargeted h
  simp only [openingBytes, hs, ht, List.length_append, List.flatten_cons, length_declarations h]

lemma four_dvd_sectionBytes (s : Script) : ∀ part ∈ s.sectionBytes, 4 ∣ part.length := by
  simp only [sectionBytes, List.forall_mem_cons]
  exact ⟨four_dvd_bytesOfWords _, four_dvd_bytesOfList Function.four_dvd_declaration _,
    four_dvd_bytesOfList Variable.four_dvd_bytes _,
    four_dvd_append (four_dvd_bytesOfList Table.four_dvd_declaration _) (four_dvd_bytesOfWords _),
    four_dvd_bytesOfList Variable.four_dvd_bytes _,
    four_dvd_bytesOfList Import.four_dvd_bytes _,
    four_dvd_bytesOfList Variable.four_dvd_bytes _, fun _ h => by cases h⟩

lemma four_dvd_openingBytes (s : Script) : 4 ∣ s.openingBytes.length := by
  rw [openingBytes]
  exact four_dvd_append ⟨2, rfl⟩ (four_dvd_append (four_dvd_bytesOfWords _)
    (four_dvd_append (four_dvd_flatten s.four_dvd_sectionBytes) ⟨1, rfl⟩))

lemma four_dvd_position_opening (s : Script) :
    4 ∣ (Writer.empty.append s.openingBytes).position := by
  rw [Writer.position_empty_append]
  exact s.four_dvd_openingBytes

variable {roots : List Root} {stop : Nat}

lemma Stands.container_eq (h : s.Stands roots stop) {roots' : List Root} {stop' : Nat}
    (h' : s.Stands roots' stop') (hall : s.EncodesAll roots) :
    s.container roots = s.container roots' := by
  have hwritten := h.written_eq h' hall (w := .empty) ⟨0, rfl⟩
  have hregion : s.regionBytes roots = s.regionBytes roots' := by
    have hwriter : Writer.empty.append (s.regionBytes roots) =
        Writer.empty.append (s.regionBytes roots') := congrArg Emission.writer hwritten
    have hlist := congrArg (fun w : Writer => w.bytes.toList) hwriter
    simp only [Writer.toList_append] at hlist
    exact List.append_cancel_left hlist
  unfold container
  rw [hregion, hwritten]

lemma overwrite_code {opening region code : List UInt8} (hlength : code.length = region.length)
    (hdvd : 4 ∣ code.length) :
    overwrite (Writer.empty.append (opening ++ region)) opening.length
      (Writer.empty.append code).bytes (code.length / 4 * 4) .code =
      .ok (Writer.empty.append (opening ++ code)) := by
  have hbytes : (Writer.empty.append code).bytes.toList = code := Writer.toList_append _ _
  have hsize : (Writer.empty.append code).bytes.size = code.length / 4 * 4 := by
    have hposition : (Writer.empty.append code).bytes.size = code.length :=
      Writer.position_empty_append _
    omega
  have hpatch := Writer.patch_eq opening [] hlength
  rw [List.append_nil, List.append_nil] at hpatch
  rw [overwrite, if_neg (not_not.mpr hsize), hbytes]
  exact hpatch

/-- The second writing fits into the first, so nothing fails but the writing itself. -/
lemma finish_yields (h : t.untargeted = s.untargeted) (ht : t.Stands roots stop)
    (hfit : t.ValuesFit) {emission : Emission} {region : List UInt8}
    (hwriter : emission.writer = Writer.empty.append (s.openingBytes ++ region))
    (hlength : region.length = stop + 4 * s.padding.code.length) :
    Yields
      (t.finish ⟨Writer.empty.append s.openingBytes, startsFrom headerSize s.sectionBytes⟩ emission)
      (fun built => built = t.container roots ∧ t.Writable roots)
      (fun e => Writer.empty.functions t.declared = .error e ∨ t.emit .empty = .error e) := by
  have hpadding : t.padding = s.padding := (rest_eq_of_untargeted h).2.2.2
  have hopening := length_openingBytes h
  have hbase : (Writer.empty.append s.openingBytes).position = s.openingBytes.length :=
    Writer.position_empty_append _
  have hposition : emission.writer.position = s.openingBytes.length + region.length := by
    rw [hwriter, Writer.position_empty_append, List.length_append]
  unfold finish
  cases hdeclared : Writer.empty.functions t.declared with
  | error e => exact .inl rfl
  | ok declarations =>
  obtain ⟨rfl, -⟩ := (Writer.functions_yields ⟨0, rfl⟩ t.declared).of_ok hdeclared
  rw [ok_bind, hwriter, overwrite_declarations h]
  change Yields (t.emit .empty >>= _) _ _
  cases hemit : t.emit .empty with
  | error e => exact .inr rfl
  | ok second =>
  obtain ⟨rfl, hcode, htables⟩ := (ht.emit_yields ⟨0, rfl⟩).of_ok hemit
  rw [ok_bind]
  obtain ⟨hregion, hdvd⟩ := ht.length_regionBytes hcode htables
  have hsame : (t.regionBytes roots).length = region.length := by rw [hregion, hlength, hpadding]
  have hwords : ((Writer.empty.append (s.openingBytes ++ region)).position -
      (Writer.empty.append s.openingBytes).position) / 4 = (t.regionBytes roots).length / 4 := by
    rw [← hwriter, hposition, hbase, hsame, Nat.add_sub_cancel_left]
  have hoverwrite : overwrite (Writer.empty.append (t.openingBytes ++ region))
      s.openingBytes.length (Writer.empty.append (t.regionBytes roots)).bytes
      ((t.regionBytes roots).length / 4 * 4) .code =
      .ok (Writer.empty.append (t.openingBytes ++ t.regionBytes roots)) := by
    rw [← hopening]
    exact overwrite_code hsame (hregion ▸ Nat.dvd_add hdvd ⟨_, rfl⟩)
  have hfill := fill_header t (t.regionBytes roots)
  rw [starts_of_untargeted h] at hfill
  have hwritten : (t.written roots .empty).writer = Writer.empty.append (t.regionBytes roots) := rfl
  dsimp only
  rw [hwords, hbase, hwritten, hoverwrite]
  change Yields (Writer.patchWord _ _ _ >>= fun w => List.foldlM _ w _ >>= _) _ _
  rw [← bind_assoc, hfill]
  refine ⟨?_, hcode, htables, hfit⟩
  rw [← hopening]
  rfl

lemma Retains.valuesFit (h : s.Retains t) (hs : s.ValuesFit) : t.ValuesFit := by
  have hscope (scope : Scope) : t.variablesIn scope = s.variablesIn scope := by
    rw [variablesIn, variablesIn, h.vars]
  obtain ⟨hfunctions, hscopes⟩ := hs
  refine ⟨fun g hg => ?_, ?_⟩
  · obtain ⟨hg, hdeclared⟩ := List.mem_filter.mp hg
    obtain ⟨f, hf, hfg⟩ := h.exists_source hg
    rw [hfg.isDeclared] at hdeclared
    rw [hfg.vars]
    exact hfunctions f (List.mem_filter.mpr ⟨hf, hdeclared⟩)
  · rwa [hscope, hscope, hscope]

lemma Emitted.ends_of_mem {emission : Emission} {base : Nat} (h : s.Stands roots stop)
    (he : s.Emitted (forestPlots 0 roots) stop base emission) {f : Function}
    (hf : f ∈ s.functions.records) :
    ∃ found, emission.ends.get? f.id = some found ∧ found.offsets.length = f.code.length := by
  obtain ⟨p, hp, hid, -, -, hcode⟩ := h.exists_plot hf
  refine ⟨p.ends, ?_, ?_⟩
  · rw [← hid]
    exact he.ends p hp
  · rw [Plot.ends, List.length_map, Nesting.length_stops, hcode]

lemma Stands.applyFixups_outcome (h : s.Stands roots stop) (hs : s.Writable roots) (w : Writer)
    (options : Options) :
    Outcome (applyFixups (s.written roots w).ends options s)
      (fun _ after => after.untargeted = s.untargeted ∧
        ∀ f ∈ after.functions.records, f.checkLabels options = .ok ())
      (fun e => ∃ f ∈ s.functions.records, f.checkLabels options = .error e) := by
  have hemitted : s.Emitted (forestPlots 0 roots) stop w.position (s.written roots w) :=
    h.emitted hs.code hs.tables
  have hends : ∀ f ∈ s.functions.records, ∀ found, (s.written roots w).ends.get? f.id = some found →
      found.offsets.length = f.code.length := by
    intro f hf found hfound
    obtain ⟨recorded, hrecorded, hlength⟩ := hemitted.ends_of_mem h hf
    obtain rfl := Option.some.inj (hfound.symm.trans hrecorded)
    exact hlength
  refine (Script.applyFixups_outcome hends).mono ?_ fun _ h => h
  rintro _ after ⟨hagrees, hlabels⟩
  refine ⟨hagrees, fun g hg => ?_⟩
  have hmem : g.untargeted ∈ s.untargeted.functions.records := by
    rw [← hagrees]
    exact List.mem_map_of_mem hg
  obtain ⟨f, hf, hsame⟩ := List.mem_map.mp hmem
  obtain ⟨found, hfound, -⟩ := hemitted.ends_of_mem h hf
  exact Function.checkLabels_of_untargeted hsame.symm (hlabels f hf (by rw [hfound]; rfl))

/-- Building up to the second writing. -/
def prepare (options : Options) : Edit (Opening × Emission) := do
  let _ ← assignOffsets
  let s ← get
  let first ← settle s.opening
  let emission ← settle (s.emit first.writer)
  applyFixups emission.ends options
  return (first, emission)

lemma build_eq (options : Options) :
    build options = (do
      let (first, emission) ← prepare options
      let s ← get
      settle (s.finish first emission)) := by
  simp only [build, prepare, bind_assoc, pure_bind]

/-- What building leaves behind before the second writing: the script is laid out and written, its
targets are set, and labels agree with label instructions. -/
structure IsPrepared (s : Script) (options : Options) (laid : Script) (roots : List Root)
    (stop : Nat) (after : Script) : Prop where
  offsets : assignOffsets s = .ok stop laid
  stands : laid.Stands roots stop
  writable : laid.Writable roots
  fixed : applyFixups (laid.written roots (Writer.empty.append laid.openingBytes)).ends options
    laid = .ok () after
  agrees : after.untargeted = laid.untargeted
  labels : ∀ f ∈ after.functions.records, f.checkLabels options = .ok ()

lemma IsPrepared.standsAfter {laid after : Script} {options : Options}
    (h : s.IsPrepared options laid roots stop after) :
    after.Stands (roots.map (Root.dress after.body?)) stop :=
  (h.stands.dress h.agrees).1

lemma prepare_outcome (options : Options) (s : Script) :
    Outcome (prepare options s)
      (fun first after => ∃ laid roots stop, s.IsPrepared options laid roots stop after ∧
        first = (⟨Writer.empty.append laid.openingBytes, startsFrom headerSize laid.sectionBytes⟩,
          laid.written roots (Writer.empty.append laid.openingBytes)))
      (fun e => LayOut.Fails s.regionSize e ∨ e.IsInput ∨ e.IsLabelCount) := by
  unfold prepare
  cases hlay : assignOffsets s with
  | error e laid =>
    rw [bind_of_error hlay]
    exact .inl ((assignOffsets_outcome s).of_error hlay)
  | ok stop laid =>
  rw [bind_of_ok hlay, bind_of_ok (rfl : (get : Edit Script) laid = .ok laid laid)]
  obtain ⟨forest, hlaid⟩ := (assignOffsets_outcome s).of_ok hlay
  obtain ⟨roots, hstands, -⟩ := hlaid.stands
  have hopening := laid.opening_yields
  cases hfirst : laid.opening with
  | error e => exact .inr (.inl (hopening.of_error hfirst))
  | ok first =>
  obtain ⟨rfl, hfit⟩ := hopening.of_ok hfirst
  let w := Writer.empty.append laid.openingBytes
  have hw : 4 ∣ w.position := laid.four_dvd_position_opening
  have hemission := hstands.emit_yields hw
  change Outcome ((settle (laid.emit w) >>= fun emission => _) laid) _ _
  cases hemit : laid.emit w with
  | error e => exact .inr (.inl (hemission.of_error hemit))
  | ok emission =>
  obtain ⟨rfl, hcode, htables⟩ := hemission.of_ok hemit
  have hwritable : laid.Writable roots := ⟨hcode, htables, hfit⟩
  have hfixups := hstands.applyFixups_outcome hwritable w options
  change Outcome ((applyFixups (laid.written roots w).ends options >>= fun _ => _) laid) _ _
  cases hfix : applyFixups (laid.written roots w).ends options laid with
  | error e after =>
    rw [bind_of_error hfix]
    obtain ⟨f, -, hcheck⟩ := hfixups.of_error hfix
    exact .inr (.inr ((f.checkLabels_yields options).of_error hcheck))
  | ok _ after =>
  obtain ⟨hagrees, hlabels⟩ := hfixups.of_ok hfix
  rw [bind_of_ok hfix]
  exact ⟨laid, roots, stop, ⟨hlay, hstands, hwritable, hfix, hagrees, hlabels⟩, rfl⟩

lemma IsPrepared.emit_eq {laid after : Script} {options : Options}
    (h : s.IsPrepared options laid roots stop after) {w : Writer} (hw : 4 ∣ w.position) :
    laid.emit w = .ok (laid.written roots w) :=
  (h.stands.emit_yields hw).eq_ok ⟨h.writable.code, h.writable.tables⟩

lemma IsPrepared.finish_yields {laid after : Script} {options : Options}
    (h : s.IsPrepared options laid roots stop after) :
    Yields
      (after.finish
        ⟨Writer.empty.append laid.openingBytes, startsFrom headerSize laid.sectionBytes⟩
        (laid.written roots (Writer.empty.append laid.openingBytes)))
      (fun built => built = after.container (roots.map (Root.dress after.body?)) ∧
        after.Writable (roots.map (Root.dress after.body?)))
      (fun e => Writer.empty.functions after.declared = .error e ∨ after.emit .empty = .error e) := by
  have hwriter : (laid.written roots (Writer.empty.append laid.openingBytes)).writer =
      Writer.empty.append (laid.openingBytes ++ laid.regionBytes roots) :=
    Writer.append_append _ _ _
  exact Script.finish_yields h.agrees h.standsAfter
    ((Retains.of_untargeted h.agrees).valuesFit h.writable.values) hwriter
    (h.stands.length_regionBytes h.writable.code h.writable.tables).1

/-- What building leaves behind: the container of the script with its targets set is written. -/
structure IsBuilt (s : Script) (options : Options) (laid : Script) (roots : List Root) (stop : Nat)
    (built : Built) (after : Script) : Prop extends s.IsPrepared options laid roots stop after where
  writableAfter : after.Writable (roots.map (Root.dress after.body?))
  built : built = after.container (roots.map (Root.dress after.body?))

lemma IsBuilt.emit_eq {options : Options} {laid after : Script} {built : Built}
    (h : s.IsBuilt options laid roots stop built after) {w : Writer} (hw : 4 ∣ w.position) :
    after.emit w = .ok (after.written (roots.map (Root.dress after.body?)) w) :=
  (h.standsAfter.emit_yields hw).eq_ok ⟨h.writableAfter.code, h.writableAfter.tables⟩

/-- Building fails only for want of a function or of room, for a missing record, for values of
another type, or where labels disagree with label instructions. -/
theorem build_outcome (options : Options) (s : Script) :
    Outcome (build options s)
      (fun built after => ∃ laid roots stop, s.IsBuilt options laid roots stop built after)
      (fun e => LayOut.Fails s.regionSize e ∨ e.IsInput ∨ e.IsLabelCount) := by
  rw [build_eq]
  refine (prepare_outcome options s).bind ?_
  rintro _ after ⟨laid, roots, stop, hprepared, rfl⟩
  have hfinish := hprepared.finish_yields
  have hsecond := hprepared.standsAfter
  change Outcome (settle (after.finish _ (laid.written roots _)) after) _ _
  cases hbuilt : after.finish _ (laid.written roots (Writer.empty.append laid.openingBytes)) with
  | error e =>
    rcases hfinish.of_error hbuilt with hfailed | hfailed
    · exact .inr (.inl ((Writer.functions_yields ⟨0, rfl⟩ after.declared).of_error hfailed))
    · exact .inr (.inl ((hsecond.emit_yields ⟨0, rfl⟩).of_error hfailed))
  | ok built =>
    obtain ⟨rfl, hafter⟩ := hfinish.of_ok hbuilt
    exact ⟨laid, roots, stop, ⟨hprepared, hafter, rfl⟩⟩

lemma IsBuilt.retains {options : Options} {laid after : Script} {built : Built}
    (h : s.IsBuilt options laid roots stop built after) : s.Retains after := by
  obtain ⟨forest, hlaid⟩ := (assignOffsets_outcome s).of_ok h.offsets
  exact hlaid.retains.trans (.of_untargeted h.agrees)

variable {options : Options} {laid after : Script}

lemma exists_prepare_of_emit {opening : Opening} {first : Emission}
    (hlay : assignOffsets s = .ok stop laid)
    (hopening : laid.opening = .ok opening) (hfirst : laid.emit .empty = .ok first)
    (hfix : applyFixups first.ends options laid = .ok () after) :
    ∃ written, prepare options s = .ok written after := by
  obtain ⟨forest, hlaid⟩ := (assignOffsets_outcome s).of_ok hlay
  obtain ⟨roots, hstands, -⟩ := hlaid.stands
  obtain ⟨rfl, hall⟩ := (hstands.emit_yields ⟨0, rfl⟩).of_ok hfirst
  obtain ⟨rfl, -⟩ := laid.opening_yields.of_ok hopening
  have hemit := (hstands.emit_yields laid.four_dvd_position_opening).eq_ok hall
  have hfix : applyFixups (laid.written roots (Writer.empty.append laid.openingBytes)).ends options
      laid = .ok () after := hfix
  unfold prepare
  rw [bind_of_ok hlay, bind_of_ok (rfl : (get : Edit Script) laid = .ok laid laid), hopening,
    bind_of_ok (rfl : (settle (.ok _) : Edit Opening) laid = .ok _ laid), hemit,
    bind_of_ok (rfl : (settle (.ok _) : Edit Emission) laid = .ok _ laid), bind_of_ok hfix]
  exact ⟨_, rfl⟩

lemma build_of_prepare {written : Opening × Emission} {emission : Emission}
    (hprepare : prepare options s = .ok written after) (hemit : after.emit .empty = .ok emission) :
    ∃ built, build options s = .ok built after := by
  obtain ⟨laid, roots, stop, hprepared, rfl⟩ := (prepare_outcome options s).of_ok hprepare
  have hfit := (Retains.of_untargeted hprepared.agrees).valuesFit hprepared.writable.values
  have hdeclared := (Writer.functions_yields (w := .empty) ⟨0, rfl⟩ after.declared).eq_ok hfit.1
  rw [build_eq, bind_of_ok hprepare]
  change ∃ built, settle (after.finish _ (laid.written roots _)) after = .ok built after
  cases hbuilt : after.finish _ (laid.written roots (Writer.empty.append laid.openingBytes)) with
  | error e =>
    rcases hprepared.finish_yields.of_error hbuilt with hfailed | hfailed
    · rw [hdeclared] at hfailed
      cases hfailed
    · rw [hemit] at hfailed
      cases hfailed
  | ok built => exact ⟨built, rfl⟩

/-- The code region, written by the schedule whose parts were put in order one after the other. -/
def emitInserted (s : Script) : Except Error Emission := do
  let ctx := (Context.new s).withCodeBase Writer.empty.position
  let region : Emit Unit := do
    s.insertedSchedule.forM (Emit.part ctx)
    Emit.words s.padding.code
  let ((), emission) ← region.run ⟨.empty, .nothing, .empty, .empty⟩
  return emission

lemma emitInserted_eq (s : Script) : s.emitInserted = s.emit .empty := by
  have hscript : ((Context.new s).withCodeBase Writer.empty.position).script = s := rfl
  unfold emitInserted emit Emit.region
  dsimp only
  rw [hscript, schedule_eq_insertedSchedule]

/-- What building leaves behind, and what is written of it. -/
def writing? (options : Options) (s : Script) : Option (Script × Emission) :=
  match assignOffsets s with
  | .error _ _ => none
  | .ok _ laid =>
    match laid.opening, laid.emitInserted with
    | .ok _, .ok first =>
      match applyFixups first.ends options laid with
      | .error _ _ => none
      | .ok _ after => after.emitInserted.toOption.map fun emission => (after, emission)
    | _, _ => none

lemma exists_build_of_eq {emission : Emission} (h : s.writing? options = some (after, emission)) :
    after.emit .empty = .ok emission ∧ ∃ built, build options s = .ok built after := by
  unfold writing? at h
  simp only [emitInserted_eq] at h
  split at h
  case h_1 => cases h
  case h_2 stop laid hlay =>
  split at h
  case h_2 => cases h
  case h_1 opening first hopening hfirst =>
  split at h
  case h_1 => cases h
  case h_2 after hfix =>
  obtain ⟨emission, hsome, heq⟩ := Option.map_eq_some_iff.mp h
  obtain ⟨rfl, rfl⟩ := Prod.mk.inj heq
  have hemit : after.emit .empty = .ok emission := by
    cases hrun : after.emit .empty with
    | error e =>
      rw [hrun] at hsome
      cases hsome
    | ok written =>
      rw [hrun] at hsome
      exact congrArg Except.ok (Option.some.inj hsome)
  obtain ⟨written, hprepare⟩ := exists_prepare_of_emit hlay hopening hfirst hfix
  exact ⟨hemit, build_of_prepare hprepare hemit⟩

lemma exists_build (h : (s.writing? options).isSome = true) :
    ∃ built after, build options s = .ok built after := by
  obtain ⟨⟨after, emission⟩, hwriting⟩ := Option.isSome_iff_exists.mp h
  obtain ⟨-, built, hbuilt⟩ := exists_build_of_eq hwriting
  exact ⟨built, after, hbuilt⟩

end Script

end ScriptContainer
