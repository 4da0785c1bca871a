import ScriptContainer.Proofs.Standing
import ScriptContainer.Proofs.Untargeted

/-!
# Other targets in the same place

A script in place stays in place when its targets and addresses change. The code of its nestings
is exchanged, function by function, for code that agrees with it but for the targets.
-/

namespace ScriptContainer

lemma spawned?_eq_of_untargeted {i j : Instruction .bound} (h : i.untargeted = j.untargeted) :
    i.spawned? = j.spawned? := by
  rw [← i.spawned?_untargeted, h, j.spawned?_untargeted]

lemma size_eq_of_untargeted {S : Slots} {i j : Instruction S} (h : i.untargeted = j.untargeted) :
    i.size = j.size := by
  rw [← i.size_untargeted, h, j.size_untargeted]

lemma untargetedCode_cons_iff {S : Slots} {code : Body S} {i : Instruction S} {rest : Body S} :
    untargetedCode code = untargetedCode (i :: rest) ↔
      ∃ j more, code = j :: more ∧ j.untargeted = i.untargeted ∧
        untargetedCode more = untargetedCode rest := by
  unfold untargetedCode
  constructor
  · intro h
    rw [List.map_cons, List.map_eq_cons_iff] at h
    exact h
  · rintro ⟨j, more, rfl, hi, hrest⟩
    rw [List.map_cons, List.map_cons, hi, hrest]

lemma untargetedCode_eq_nil {S : Slots} {code : Body S}
    (h : untargetedCode code = untargetedCode []) : code = [] :=
  List.map_eq_nil_iff.mp h

namespace Nesting

/-- The nesting with the code `code`, and with other code for the functions inside. -/
def dress (body? : RecordId → Option (Body .bound)) : Body .bound → Nesting → Nesting
  | _, done => done
  | code, step i rest => step (code.headD i) (rest.dress body? code.tail)
  | code, host i id inner rest =>
    host (code.headD i) id (inner.dress body? ((body? id).getD inner.code))
      (rest.dress body? code.tail)

end Nesting

def Plot.dress (body? : RecordId → Option (Body .bound)) (p : Plot) : Plot :=
  { p with nesting := p.nesting.dress body? ((body? p.id).getD p.nesting.code) }

def Root.dress (body? : RecordId → Option (Body .bound)) (root : Root) : Root :=
  { root with nesting := root.nesting.dress body? ((body? root.id).getD root.nesting.code) }

/-- The bodies agree but for targets. -/
def SameBodies (body? other? : RecordId → Option (Body .bound)) : Prop :=
  ∀ id code, body? id = some code →
    ∃ code', other? id = some code' ∧ untargetedCode code' = untargetedCode code

section Dress

variable {body? other? : RecordId → Option (Body .bound)} {seen : RecordId → Prop}

lemma Nesting.ids_dress (n : Nesting) (code : Body .bound) : (n.dress other? code).ids = n.ids := by
  induction n generalizing code with
  | done => rfl
  | step i rest ih => exact ih _
  | host i id inner rest ihi ihr => simp only [dress, ids, ihi, ihr]

/-- What becomes of a nesting of functions with other code. -/
lemma Nesting.Proper.dress (hsame : SameBodies body? other?) {n : Nesting}
    (h : n.Proper body? seen) {code : Body .bound}
    (hcode : untargetedCode code = untargetedCode n.code) :
    (n.dress other? code).code = code ∧ (n.dress other? code).size = n.size ∧
      (n.dress other? code).Proper other? seen ∧
      ∀ start, (n.dress other? code).plots start = (n.plots start).map (Plot.dress other?) := by
  induction n generalizing seen code with
  | done =>
    obtain rfl := untargetedCode_eq_nil hcode
    exact ⟨rfl, rfl, trivial, fun _ => rfl⟩
  | step i rest ih =>
    obtain ⟨j, more, rfl, hj, hmore⟩ := untargetedCode_cons_iff.mp hcode
    obtain ⟨hrc, hrs, hrp, hrplots⟩ := ih h.2 hmore
    have hsize := size_eq_of_untargeted hj
    have hspawn := spawned?_eq_of_untargeted hj
    refine ⟨?_, ?_, ⟨fun id hid => h.1 id ?_, hrp⟩, fun start => ?_⟩
    · exact congrArg (j :: ·) hrc
    · exact congrArg₂ (· + ·) hsize hrs
    · rw [← hspawn]
      exact hid
    · change Nesting.plots (start + j.size) _ = (Nesting.plots (start + i.size) rest).map _
      rw [hsize]
      exact hrplots _
  | host i id inner rest ihi ihr =>
    obtain ⟨j, more, rfl, hj, hmore⟩ := untargetedCode_cons_iff.mp hcode
    obtain ⟨hspawn, hid, hbody, hinner, hrest⟩ := h
    obtain ⟨code', hcode', hagree⟩ := hsame id _ hbody
    obtain ⟨hic, his, hip, hiplots⟩ := ihi hinner hagree
    obtain ⟨hrc, hrs, hrp, hrplots⟩ := ihr hrest hmore
    have hsize := size_eq_of_untargeted hj
    have hget : (other? id).getD inner.code = code' := by rw [hcode', Option.getD_some]
    have hdress : (host i id inner rest).dress other? (j :: more) =
        host j id (inner.dress other? code') (rest.dress other? more) := by
      simp only [Nesting.dress, List.headD_cons, List.tail_cons, hget]
    rw [hdress]
    refine ⟨?_, ?_, ⟨?_, hid, ?_, hip, ?_⟩, fun start => ?_⟩
    · exact congrArg (j :: ·) hrc
    · simp only [size, hsize, his, hrs]
    · rw [spawned?_eq_of_untargeted hj, hspawn]
    · rw [hcode', hic]
    · rw [ids_dress]
      exact hrp
    · have hplot : Plot.dress other? ⟨id, start + i.size, inner, true⟩ =
          ⟨id, start + i.size, inner.dress other? code', true⟩ := by
        simp only [Plot.dress, hget]
      simp only [plots, hsize, his, hiplots, hrplots, List.map_cons, List.map_append, hplot]

lemma Root.dress_of_body? {root : Root} {code : Body .bound} (h : other? root.id = some code) :
    root.dress other? = ⟨root.id, root.nesting.dress other? code⟩ := by
  rw [Root.dress, h, Option.getD_some]

lemma Follows.dress (hsame : SameBodies body? other?) {tail schedule : List Scheduled} {start : Nat}
    {roots : List Root} (h : Follows body? tail seen start schedule roots) :
    Follows other? tail seen start schedule (roots.map (Root.dress other?)) ∧
      forestSize (roots.map (Root.dress other?)) = forestSize roots ∧
      forestIds (roots.map (Root.dress other?)) = forestIds roots ∧
      forestPlots start (roots.map (Root.dress other?)) =
        (forestPlots start roots).map (Plot.dress other?) := by
  induction h with
  | done => exact ⟨.done, rfl, rfl, rfl⟩
  | skip hid _ ih => exact ⟨.skip hid ih.1, ih.2⟩
  | @root seen start root rest roots hid hbody hproper _ ih =>
    obtain ⟨code, hcode, hagree⟩ := hsame root.id _ hbody
    obtain ⟨hc, hs, hp, hplots⟩ := hproper.dress hsame hagree
    obtain ⟨hfollows, hsize, hids, hrest⟩ := ih
    rw [List.map_cons, Root.dress_of_body? hcode]
    let dressed : Root := ⟨root.id, root.nesting.dress other? code⟩
    have hdressed : dressed.ids = root.ids := congrArg (root.id :: ·) (root.nesting.ids_dress code)
    have hscheduled : (dressed.plot start).scheduled = (root.plot start).scheduled := by
      simp only [dressed, Root.plot, Plot.scheduled, Plot.stop, hs]
    have hplot : Plot.dress other? (root.plot start) = dressed.plot start := by
      simp only [Plot.dress, Root.plot, hcode, Option.getD_some, dressed]
    refine ⟨?_, ?_, ?_, ?_⟩
    · rw [← hscheduled]
      refine .root hid ?_ hp ?_
      · rw [hcode, hc]
      · rw [hs]
        exact hfollows.congr fun x => by rw [hdressed]
    · rw [forestSize_cons, forestSize_cons, hsize, hs]
    · rw [forestIds_cons, forestIds_cons, hids, hdressed]
    · rw [forestPlots, forestPlots, List.map_append, hs, hrest, Root.plots, Root.plots,
        List.map_cons, hplots, hplot]

end Dress

namespace Script

variable {s t : Script} {roots : List Root} {stop : Nat}

lemma allTables_untargeted (s : Script) : s.untargeted.allTables = s.allTables := by
  simp only [allTables, untargeted, functions_mapFunctions, Registry.records_map, List.flatMap_map]
  rfl

lemma schedule_untargeted (s : Script) : s.untargeted.schedule = s.schedule := by
  have hfunctions : s.untargeted.functions.records.map Scheduled.ofFunction =
      s.functions.records.map Scheduled.ofFunction := by
    rw [untargeted, functions_mapFunctions, Registry.records_map, List.map_map]
    rfl
  rw [schedule, schedule, hfunctions, allTables_untargeted]

lemma ids_untargeted (s : Script) : s.untargeted.functions.ids = s.functions.ids := by
  rw [untargeted, functions_mapFunctions, Registry.ids_map]

lemma eq_of_untargeted (h : t.untargeted = s.untargeted)
    (hfunctions : ∀ f ∈ t.functions.records, f ∈ s.functions.records) : t = s := by
  obtain ⟨himports, hvars, htables, hpadding⟩ := rest_eq_of_untargeted h
  have hids : t.functions.ids = s.functions.ids := by
    rw [← ids_untargeted, h, ids_untargeted]
  have heq : t.functions = s.functions := by
    refine Registry.eq_of_ids hids fun id hid => ?_
    rw [← hids] at hid
    obtain ⟨f, hf, rfl⟩ := List.mem_map.mp hid
    rw [t.functions.get?_of_mem hf, s.functions.get?_of_mem (hfunctions f hf)]
  cases t
  cases s
  simp_all

lemma exists_get?_of_untargeted (h : t.untargeted = s.untargeted) {id : RecordId} {f : Function}
    (hf : s.functions.get? id = some f) :
    ∃ g, t.functions.get? id = some g ∧ g.untargeted = f.untargeted := by
  have hget : (t.functions.get? id).map Function.untargeted = some f.untargeted := by
    rw [← get?_untargeted, h, get?_untargeted, hf]
    rfl
  exact Option.map_eq_some_iff.mp hget

lemma sameBodies_of_untargeted (h : t.untargeted = s.untargeted) :
    SameBodies s.body? t.body? := by
  intro id code hcode
  obtain ⟨f, hf, rfl⟩ := Option.map_eq_some_iff.mp hcode
  obtain ⟨g, hg, hagree⟩ := exists_get?_of_untargeted h hf
  refine ⟨g.code, ?_, congrArg Function.code hagree⟩
  rw [body?, hg]
  rfl

lemma exists_proper {seen : RecordId → Prop} {tail schedule : List Scheduled} {start : Nat}
    {body? : RecordId → Option (Body .bound)} (h : Follows body? tail seen start schedule roots)
    {p : Plot} (hp : p ∈ forestPlots start roots) : ∃ seen', p.nesting.Proper body? seen' := by
  induction h with
  | done => cases hp
  | skip _ _ ih => exact ih hp
  | root _ _ hproper _ ih =>
    rw [forestPlots, List.mem_append, Root.plots, List.mem_cons] at hp
    rcases hp with (rfl | hp) | hp
    · exact ⟨_, hproper⟩
    · exact hproper.of_mem_plots hp
    · exact ih hp

lemma Holds.dress (h : t.untargeted = s.untargeted) {p : Plot} (hp : s.Holds p)
    (hproper : ∃ seen, p.nesting.Proper s.body? seen) : t.Holds (p.dress t.body?) := by
  obtain ⟨f, hf, hstart, hstop, hinline, hcode⟩ := hp
  obtain ⟨g, hg, hagree⟩ := exists_get?_of_untargeted h hf
  obtain ⟨seen, hproper⟩ := hproper
  have hgcode : untargetedCode g.code = untargetedCode p.nesting.code :=
    (congrArg Function.code hagree).trans (congrArg untargetedCode hcode)
  obtain ⟨hc, hs, -, -⟩ := hproper.dress (sameBodies_of_untargeted h) hgcode
  have hdress : p.dress t.body? = { p with nesting := p.nesting.dress t.body? g.code } := by
    rw [Plot.dress, body?, hg]
    rfl
  rw [hdress]
  refine ⟨g, hg, ?_, ?_, ?_, hc.symm⟩
  · exact (congrArg (fun f => f.codeStart.toNat) hagree).trans hstart
  · refine (congrArg (fun f => f.codeEnd.toNat) hagree).trans (hstop.trans ?_)
    simp only [Plot.stop, hs]
  · exact (congrArg Function.isInline hagree).trans hinline

/-- A script in place stays in place when its targets and addresses change. -/
theorem Stands.dress (h : s.Stands roots stop) (ht : t.untargeted = s.untargeted) :
    t.Stands (roots.map (Root.dress t.body?)) stop ∧
      forestPlots 0 (roots.map (Root.dress t.body?)) =
        (forestPlots 0 roots).map (Plot.dress t.body?) := by
  have hschedule : t.schedule = s.schedule := by
    rw [← schedule_untargeted, ht, schedule_untargeted]
  have htables : t.allTables = s.allTables := by
    rw [← allTables_untargeted, ht, allTables_untargeted]
  have hids : t.functions.ids = s.functions.ids := by
    rw [← ids_untargeted, ht, ids_untargeted]
  obtain ⟨hfollows, hsize, hforest, hplots⟩ := h.follows.dress (sameBodies_of_untargeted ht)
  refine ⟨⟨?_, fun p hp => ?_, ?_, ?_, ?_, h.fits⟩, hplots⟩
  · rwa [hschedule, htables]
  · rw [hplots] at hp
    obtain ⟨q, hq, rfl⟩ := List.mem_map.mp hp
    exact (h.holds q hq).dress ht (exists_proper h.follows hq)
  · rw [hforest, hids]
    exact h.once
  · rw [hsize, htables]
    exact h.tables
  · rw [htables]
    exact h.values

end Script

end ScriptContainer
