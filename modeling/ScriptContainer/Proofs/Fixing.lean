import ScriptContainer.Proofs.Building

/-!
# Containers with their targets set

Setting targets changes each function on its own, by the ends that the first writing recorded. The
second writing records the same ends, and the container holds every instruction before its end. So
targets can be compared with the bytes of the container.
-/

namespace ScriptContainer

namespace Nesting

variable {body? other? : RecordId → Option (Body .bound)} {seen : RecordId → Prop} {n : Nesting}

lemma Proper.stops_dress (hsame : SameBodies body? other?) (h : n.Proper body? seen)
    {code : Body .bound} (hcode : untargetedCode code = untargetedCode n.code) (start : Nat) :
    (n.dress other? code).stops start = n.stops start := by
  induction n generalizing seen code start with
  | done => rfl
  | step i rest ih =>
    obtain ⟨j, more, rfl, hj, hmore⟩ := untargetedCode_cons_iff.mp hcode
    rw [Nesting.dress, List.headD_cons, List.tail_cons, stops, stops, size_eq_of_untargeted hj,
      ih h.2 hmore]
  | host i id inner rest _ ih =>
    obtain ⟨j, more, rfl, hj, hmore⟩ := untargetedCode_cons_iff.mp hcode
    obtain ⟨-, -, hbody, hinner, hrest⟩ := h
    obtain ⟨code', hcode', hagree⟩ := hsame id _ hbody
    have hinside : (inner.dress other? ((other? id).getD inner.code)).size = inner.size := by
      rw [hcode', Option.getD_some]
      exact (hinner.dress hsame hagree).2.1
    rw [Nesting.dress, List.headD_cons, List.tail_cons, stops, stops, hinside,
      size_eq_of_untargeted hj, ih hrest hmore]

lemma four_dvd_stops {s : Script} (h : ∀ i ∈ n.allCode, s.Encodes i) {start : Nat}
    (hstart : 4 ∣ start) : ∀ stop ∈ n.stops start, 4 ∣ stop := by
  induction n generalizing start with
  | done => exact fun _ hstop => absurd hstop List.not_mem_nil
  | step i rest ih =>
    rw [allCode, List.forall_mem_cons] at h
    have hend := Nat.dvd_add hstart h.1.four_dvd_size
    exact List.forall_mem_cons.mpr ⟨hend, ih h.2 hend⟩
  | host i id inner rest _ ih =>
    rw [allCode, List.forall_mem_cons, List.forall_mem_append] at h
    have hend := Nat.dvd_add hstart h.1.four_dvd_size
    exact List.forall_mem_cons.mpr ⟨hend, ih h.2.2 (Nat.dvd_add hend (four_dvd_size h.2.1))⟩

lemma four_dvd_of_mem_plots {s : Script} (h : ∀ i ∈ n.allCode, s.Encodes i) {start : Nat}
    (hstart : 4 ∣ start) : ∀ p ∈ n.plots start, 4 ∣ p.start := by
  induction n generalizing start with
  | done => exact fun _ hp => absurd hp List.not_mem_nil
  | step i rest ih =>
    rw [allCode, List.forall_mem_cons] at h
    exact ih h.2 (Nat.dvd_add hstart h.1.four_dvd_size)
  | host i id inner rest ihi ihr =>
    rw [allCode, List.forall_mem_cons, List.forall_mem_append] at h
    have hend := Nat.dvd_add hstart h.1.four_dvd_size
    refine List.forall_mem_cons.mpr ⟨hend, List.forall_mem_append.mpr ⟨ihi h.2.1 hend, ?_⟩⟩
    exact ihr h.2.2 (Nat.dvd_add hend (four_dvd_size h.2.1))

end Nesting

lemma four_dvd_of_mem_forestPlots {s : Script} {roots : List Root}
    (h : ∀ i ∈ forestCode roots, s.Encodes i) {start : Nat} (hstart : 4 ∣ start) :
    ∀ p ∈ forestPlots start roots, 4 ∣ p.start := by
  induction roots generalizing start with
  | nil => exact fun _ hp => absurd hp List.not_mem_nil
  | cons root roots ih =>
    rw [forestCode, List.flatMap_cons, List.forall_mem_append] at h
    refine List.forall_mem_append.mpr ⟨List.forall_mem_cons.mpr ⟨hstart, ?_⟩, ?_⟩
    · exact Nesting.four_dvd_of_mem_plots h.1 hstart
    · exact ih h.2 (Nat.dvd_add hstart (Nesting.four_dvd_size h.1))

lemma Function.eq_of_fix {options : Options} {f fixed : Function} {ends : List UInt32}
    (h : f.fix options ends = .ok fixed) :
    ends.length = f.code.length ∧
      fixed.code = Placed.retargetAll (f.code.zipWith Placed.mk ends) ∧
      fixed.labels = addressLabels f.labels
        (((f.code.zipWith Placed.mk ends).filter fun p => p.instruction.isLabel).map Placed.stop) := by
  unfold fix at h
  split at h
  · cases h
  · rename_i hlength
    obtain ⟨-, -, h⟩ := bind_eq_ok_iff.mp h
    obtain rfl := pure_eq_ok_iff.mp h
    exact ⟨not_not.mp hlength, rfl, rfl⟩

lemma Function.id_of_fix {options : Options} {f fixed : Function} {ends : List UInt32}
    (h : f.fix options ends = .ok fixed) : fixed.id = f.id := by
  unfold fix at h
  split at h
  · cases h
  · obtain ⟨-, -, h⟩ := bind_eq_ok_iff.mp h
    obtain rfl := pure_eq_ok_iff.mp h
    rfl

namespace Script

variable {s t after : Script} {options : Options} {ends : Registry Ends}

lemma fixFunction_ok {f : Function} (h : fixFunction ends options f t = .ok () after)
    {found : Ends} (hfound : ends.get? f.id = some found) :
    ∃ fixed, f.fix options found.offsets = .ok fixed ∧
      after = { t with functions := t.functions.replace fixed } := by
  unfold fixFunction at h
  rw [hfound] at h
  dsimp only at h
  cases hfix : f.fix options found.offsets with
  | error e =>
    rw [hfix] at h
    cases h
  | ok fixed =>
    rw [hfix] at h
    cases h
    exact ⟨fixed, rfl, rfl⟩

lemma fixFunctions_ok {fs : List Function} (hn : (fs.map Function.id).Nodup)
    (hends : ∀ f ∈ fs, (ends.get? f.id).isSome) {t after : Script}
    (ht : ∀ f ∈ fs, (t.functions.get? f.id).isSome)
    (h : fs.forM (fixFunction ends options) t = .ok () after) :
    (∀ f ∈ fs, ∃ found fixed, ends.get? f.id = some found ∧
      f.fix options found.offsets = .ok fixed ∧ after.functions.get? f.id = some fixed) ∧
    ∀ id ∉ fs.map Function.id, after.functions.get? id = t.functions.get? id := by
  induction fs generalizing t with
  | nil =>
    cases h
    exact ⟨fun _ hf => absurd hf List.not_mem_nil, fun _ _ => rfl⟩
  | cons f fs ih =>
    rw [List.map_cons, List.nodup_cons] at hn
    rw [List.forall_mem_cons] at hends ht
    obtain ⟨found, hfound⟩ := Option.isSome_iff_exists.mp hends.1
    change (fixFunction ends options f >>= fun _ => fs.forM (fixFunction ends options)) t = _ at h
    cases hrun : fixFunction ends options f t with
    | error e next =>
      rw [bind_of_error hrun] at h
      cases h
    | ok _ next =>
      rw [bind_of_ok hrun] at h
      obtain ⟨fixed, hfix, rfl⟩ := fixFunction_ok hrun hfound
      have hid : fixed.id = f.id := Function.id_of_fix hfix
      have hnext (id : RecordId) : (t.functions.replace fixed).get? id =
          if id = f.id then (t.functions.get? id).map fun _ => fixed else t.functions.get? id := by
        rw [Registry.get?_replace]
        exact hid ▸ rfl
      have hkept : ∀ g ∈ fs, ((t.functions.replace fixed).get? g.id).isSome := by
        intro g hg
        rw [hnext]
        split
        · rw [Option.isSome_map]
          exact ht.2 g hg
        · exact ht.2 g hg
      obtain ⟨hrest, hother⟩ := ih hn.2 hends.2 hkept h
      obtain ⟨old, hold⟩ := Option.isSome_iff_exists.mp ht.1
      refine ⟨List.forall_mem_cons.mpr ⟨⟨found, fixed, hfound, hfix, ?_⟩, hrest⟩, ?_⟩
      · rw [hother f.id hn.1]
        refine (hnext f.id).trans ?_
        rw [if_pos rfl, hold, Option.map_some]
      · intro id hid'
        rw [List.map_cons, List.mem_cons, not_or] at hid'
        rw [hother id hid'.2]
        refine (hnext id).trans ?_
        rw [if_neg hid'.1]

/-- Each function of the script is set by its own ends. -/
lemma applyFixups_ok (hends : ∀ f ∈ s.functions.records, (ends.get? f.id).isSome)
    (h : applyFixups ends options s = .ok () after) :
    ∀ f ∈ s.functions.records, ∃ found fixed, ends.get? f.id = some found ∧
      f.fix options found.offsets = .ok fixed ∧ after.functions.get? f.id = some fixed := by
  unfold applyFixups at h
  rw [bind_of_ok (rfl : (get : Edit Script) s = .ok s s)] at h
  have hn : (s.functions.records.reverse.map Function.id).Nodup := by
    rw [List.map_reverse]
    exact List.nodup_reverse.mpr s.functions.nodup
  have hmem {f : Function} (hf : f ∈ s.functions.records.reverse) : f ∈ s.functions.records :=
    List.mem_reverse.mp hf
  have hrun := fixFunctions_ok hn (fun f hf => hends f (hmem hf))
    (fun f hf => Option.isSome_iff_exists.mpr ⟨f, s.functions.get?_of_mem (hmem hf)⟩) h
  exact fun f hf => hrun.1 f (List.mem_reverse.mpr hf)

/-- The second writing records the ends that the first one has recorded. -/
lemma Holds.ends_dress (h : t.untargeted = s.untargeted) {p : Plot} (hp : s.Holds p)
    (hproper : ∃ seen, p.nesting.Proper s.body? seen) : (p.dress t.body?).ends = p.ends := by
  obtain ⟨f, hf, -, -, -, hcode⟩ := hp
  obtain ⟨g, hg, hagree⟩ := exists_get?_of_untargeted h hf
  obtain ⟨seen, hproper⟩ := hproper
  have hgcode : untargetedCode g.code = untargetedCode p.nesting.code :=
    (congrArg Function.code hagree).trans (congrArg untargetedCode hcode)
  have hdress : p.dress t.body? = { p with nesting := p.nesting.dress t.body? g.code } := by
    rw [Plot.dress, body?, hg]
    rfl
  rw [hdress, Plot.ends, Plot.ends, hproper.stops_dress (sameBodies_of_untargeted h) hgcode]

end Script

section Sections

variable {sections : List (List UInt8)} {region : List UInt8}

lemma exists_containerBytes_eq (region : List UInt8)
    (hcount : sections.length + 1 = sectionCount) :
    ∃ front, containerBytes sections region = front ++ region ∧
      front.length = headerSize + sections.flatten.length + 4 := by
  refine ⟨magic ++ (bytesOfWords
    ((startsFrom headerSize sections).map fun start => UInt32.ofNat (start / 4)) ++
      (bytesOfWord 0 ++ (sections.flatten ++ bytesOfWord (UInt32.ofNat (region.length / 4))))),
    ?_, ?_⟩
  · simp only [containerBytes, List.append_assoc]
  · simp only [List.length_append, length_bytesOfWords, List.length_map, Script.length_startsFrom,
      hcount, length_bytesOfWord, headerSize, show magic.length = 8 from rfl]
    omega

lemma standsAt_codeBase (hcount : sections.length + 1 = sectionCount) :
    StandsAt 0 (containerBytes sections region) (headerSize + sections.flatten.length + 4)
      region := by
  obtain ⟨front, heq, hlength⟩ := exists_containerBytes_eq region hcount
  exact ⟨front, [], by rw [List.append_nil, heq], by rw [hlength, Nat.zero_add]⟩

end Sections

/-- The ends that are recorded for a function are those of its instructions in the bytes of the
container, counted from the start of the code region. -/
structure Built.Records (built : Built) (s : Script) (f : Function) (found : Ends) : Prop where
  held : built.ends.get? f.id = some found
  length : found.offsets.length = f.code.length
  aligned : ∀ stop ∈ found.offsets, 4 ∣ stop.toNat
  instructions : ∀ (k : Nat) (i : Instruction .bound) (stop : UInt32),
    f.code[k]? = some i → found.offsets[k]? = some stop →
    ∃ first ws, stop.toNat = first + i.size ∧ i.encode s = .ok ws ∧
      ws.head? = some i.opcodeWord ∧
      StandsAt 0 built.bytes.toList (built.codeBase + first) (bytesOfWords ws)

namespace Script

variable {s laid after : Script} {options : Options} {roots : List Root} {stop : Nat}
  {built : Built}

lemma toList_container (s : Script) (roots : List Root) :
    (s.container roots).bytes.toList = containerBytes s.sectionBytes (s.regionBytes roots) := by
  rw [container, Writer.toList_append]
  rfl

lemma exists_build_of_writing {α : Type} {facts : Script × Emission → α} {x : α}
    (h : (s.writing? options).map facts = some x) :
    ∃ built after emission, build options s = .ok built after ∧ after.emit .empty = .ok emission ∧
      built.bytes.toList = containerBytes after.sectionBytes emission.writer.bytes.toList ∧
      facts (after, emission) = x := by
  obtain ⟨⟨after, emission⟩, hwriting, hfacts⟩ := Option.map_eq_some_iff.mp h
  obtain ⟨hemit, built, hbuild⟩ := exists_build_of_eq hwriting
  refine ⟨built, after, emission, hbuild, hemit, ?_, hfacts⟩
  obtain ⟨laid, roots, stop, hbuilt⟩ := (build_outcome options s).of_ok hbuild
  obtain ⟨rfl, -⟩ := (hbuilt.standsAfter.emit_yields ⟨0, rfl⟩).of_ok hemit
  rw [hbuilt.built, toList_container]
  exact congrArg _ (Writer.toList_append .empty (after.regionBytes _)).symm

lemma codeBase_container (s : Script) (roots : List Root) :
    (s.container roots).codeBase = headerSize + s.sectionBytes.flatten.length + 4 := by
  change s.openingBytes.length = _
  simp only [openingBytes, List.length_append, length_bytesOfWords, length_bytesOfWord,
    List.length_replicate, headerSize, sectionCount, show magic.length = 8 from rfl]
  omega

lemma drop_codeBase_container (s : Script) (roots : List Root) :
    (s.container roots).bytes.toList.drop (s.container roots).codeBase = s.regionBytes roots := by
  have hcount : s.sectionBytes.length + 1 = sectionCount := rfl
  obtain ⟨front, heq, hlength⟩ := exists_containerBytes_eq (s.regionBytes roots) hcount
  rw [toList_container, codeBase_container, heq, ← hlength, List.drop_left]

namespace IsBuilt

variable (h : s.IsBuilt options laid roots stop built after)
include h

lemma emitted : after.Emitted (forestPlots 0 (roots.map (Root.dress after.body?))) stop 0
    (after.written (roots.map (Root.dress after.body?)) .empty) := by
  have hstands := h.standsAfter
  have hemitted := hstands.emitted h.writableAfter.code h.writableAfter.tables (w := .empty)
  exact hemitted

lemma standsAt_region : StandsAt 0 built.bytes.toList built.codeBase
    (after.regionBytes (roots.map (Root.dress after.body?))) := by
  rw [h.built, toList_container, codeBase_container]
  exact standsAt_codeBase rfl

lemma records {g : Function} (hg : g ∈ after.functions.records) :
    ∃ found, built.Records after g found := by
  have hstands := h.standsAfter
  obtain ⟨p, hp, hid, -, -, hcode⟩ := hstands.exists_plot hg
  obtain ⟨found, hfound, hlength, hinstructions⟩ :=
    (h.emitted.writtenInPlace hstands).instructions g hg
  have hends : some p.ends = some found := by
    rw [← h.emitted.ends p hp, hid, hfound]
  refine ⟨found, by rw [h.built]; exact hfound, hlength, ?_, ?_⟩
  · obtain rfl := Option.some.inj hends
    have hplots := four_dvd_of_mem_forestPlots h.writableAfter.code (Nat.dvd_zero 4) p hp
    intro stop hstop
    obtain ⟨offset, hoffset, rfl⟩ := List.mem_map.mp hstop
    have hoffset' := Nesting.four_dvd_stops
      (h.emitted.encodes p hp) hplots offset hoffset
    rw [UInt32.toNat_ofNat']
    exact (Nat.dvd_mod_iff (by decide)).mpr hoffset'
  · intro k i stop hi hstop
    obtain ⟨first, ws, hfirst, hws, hhead, hpart⟩ := hinstructions k i stop hi hstop
    have hregion : (after.written (roots.map (Root.dress after.body?)) .empty).writer.bytes.toList =
        after.regionBytes (roots.map (Root.dress after.body?)) := Writer.toList_append _ _
    rw [hregion] at hpart
    refine ⟨first, ws, hfirst, hws, hhead, h.standsAt_region.trans ?_⟩
    have hshift := hpart.shift built.codeBase
    rwa [Nat.add_zero, Nat.zero_add] at hshift

lemma ends_eq {p : Plot} (hp : p ∈ forestPlots 0 roots) : built.ends.get? p.id = some p.ends := by
  have hsame : (p.dress after.body?).ends = p.ends :=
    (h.stands.holds p hp).ends_dress h.agrees (exists_proper h.stands.follows hp)
  have hmem : p.dress after.body? ∈ forestPlots 0 (roots.map (Root.dress after.body?)) := by
    rw [(h.stands.dress h.agrees).2]
    exact List.mem_map_of_mem hp
  rw [h.built, ← hsame]
  exact h.emitted.ends _ hmem

lemma size_eq : built.bytes.size = headerSize + after.sectionBytes.flatten.length + 4 +
    (stop + 4 * after.padding.code.length) := by
  have hregion := (h.standsAfter.length_regionBytes h.writableAfter.code h.writableAfter.tables).1
  rw [h.built, ← Array.length_toList, toList_container]
  simp only [containerBytes, List.length_append, length_bytesOfWords, length_bytesOfWord,
    List.length_map, length_startsFrom, hregion, headerSize, sectionCount,
    show magic.length = 8 from rfl, show after.sectionBytes.length = 7 from rfl]
  omega

lemma exists_fix {g : Function} (hg : g ∈ after.functions.records) {found : Ends}
    (hfound : built.ends.get? g.id = some found) :
    ∃ f ∈ laid.functions.records, f.fix options found.offsets = .ok g := by
  obtain ⟨f, hf, -⟩ := exists_get?_of_untargeted h.agrees.symm (after.functions.get?_of_mem hg)
  have hid : f.id = g.id := Registry.id_of_get? hf
  have hemitted := h.stands.emitted h.writable.code h.writable.tables
    (w := Writer.empty.append laid.openingBytes)
  have hends (f' : Function) (hf' : f' ∈ laid.functions.records) :
      ((laid.written roots (Writer.empty.append laid.openingBytes)).ends.get? f'.id).isSome := by
    obtain ⟨first, hfirst, -⟩ := hemitted.ends_of_mem h.stands hf'
    rw [hfirst]
    rfl
  obtain ⟨first, fixed, hfirst, hfix, hfixed⟩ :=
    applyFixups_ok hends h.fixed f (Registry.mem_of_get? hf)
  obtain ⟨p, hp, hpid, -⟩ := h.stands.exists_plot (Registry.mem_of_get? hf)
  have hfirst' : some first = some found := by
    rw [← hfirst, ← hfound, ← hid, ← hpid, h.ends_eq hp]
    exact hemitted.ends p hp
  have hg' : some fixed = some g := by
    rw [← hfixed, hid]
    exact after.functions.get?_of_mem hg
  obtain rfl := Option.some.inj hfirst'
  obtain rfl := Option.some.inj hg'
  exact ⟨f, Registry.mem_of_get? hf, hfix⟩

lemma exists_function {f : Function} (hf : f ∈ s.functions.records) :
    ∃ (g : Function) (found : Ends) (before : Function),
      after.functions.get? f.id = some g ∧ built.Records after g found ∧
      before.code = f.code ∧ before.labels = f.labels ∧
      before.fix options found.offsets = .ok g := by
  obtain ⟨forest, hlaid⟩ := (assignOffsets_outcome s).of_ok h.offsets
  obtain ⟨before, hbefore, hcode, hlabels⟩ :
      ∃ before : Function, laid.functions.get? f.id = some before ∧ before.code = f.code ∧
        before.labels = f.labels := by
    rw [hlaid.script, get?_settleTables, get?_settleFunctions,
      show s.functions.get? f.id = some f from s.functions.get?_of_mem hf]
    exact ⟨_, rfl, Function.code_settle _ f, Function.labels_settle _ f⟩
  obtain ⟨g, hg, -⟩ := exists_get?_of_untargeted h.agrees hbefore
  obtain ⟨found, hrecords⟩ := h.records (Registry.mem_of_get? hg)
  obtain ⟨before', hbefore', hfix⟩ := h.exists_fix (Registry.mem_of_get? hg) hrecords.held
  have hid : before'.id = f.id :=
    (Function.id_of_fix hfix).symm.trans (Registry.id_of_get? hg)
  obtain rfl := Registry.eq_of_get? hbefore' hid hbefore
  exact ⟨g, found, before', hg, hrecords, hcode, hlabels, hfix⟩

end IsBuilt

end Script

end ScriptContainer
