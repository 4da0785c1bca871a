import ScriptContainer.Proofs.Accounting

/-!
# No container begins another one

Reading the sections before the code region goes the same way when more bytes follow. The count of
code words then no longer agrees with the bytes that are left. So no container that is accepted is
the beginning of another one.
-/

namespace ScriptContainer

variable {α β : Type}

/-- The reader over a longer buffer. -/
def Reader.extend (r : Reader) (tail : Array UInt8) : Reader := { r with bytes := r.bytes ++ tail }

/-- Where the one read succeeds, the other one succeeds in the same way over every longer buffer. -/
def Lasts (read longer : Read α) : Prop :=
  ∀ (tail : Array UInt8) (r : Reader) (x : α) (r' : Reader), read r = .ok x r' →
    longer (r.extend tail) = .ok x (r'.extend tail)

/-- A read that more bytes do not change. -/
def Stable (read : Read α) : Prop := Lasts read read

namespace Lasts

variable {read longer : Read α}

lemma throw (e : Error) (longer : Read α) : Lasts (throw e) longer :=
  fun _ _ _ _ h => nomatch h

lemma bind {next next' : α → Read β} (h : Lasts read longer) (hnext : ∀ x, Lasts (next x) (next' x)) :
    Lasts (read >>= next) (longer >>= next') := by
  intro tail r y r' hread
  obtain ⟨x, t, hx, hread⟩ := run_bind_eq_ok_iff.mp hread
  exact run_bind_eq_ok_iff.mpr ⟨x, _, h tail r x t hx, hnext x tail t y r' hread⟩

lemma length_bind {next next' : Nat → Read β} (h : ∀ n m, n ≤ m → Lasts (next n) (next' m)) :
    Lasts (Read.length >>= next) (Read.length >>= next') := by
  intro tail r y r' hread
  have hle : r.bytes.size ≤ (r.extend tail).bytes.size := by
    rw [Reader.extend, Array.size_append]
    omega
  exact h _ _ hle tail r y r' hread

end Lasts

namespace Stable

variable {read : Read α}

lemma pure (x : α) : Stable (Pure.pure x) := by
  rintro tail r y r' ⟨⟩
  rfl

lemma throw (e : Error) : Stable (throw e : Read α) := Lasts.throw e _

lemma bind {next : α → Read β} (h : Stable read) (hnext : ∀ x, Stable (next x)) :
    Stable (read >>= next) :=
  Lasts.bind h hnext

lemma offset : Stable Read.offset := by
  rintro tail r y r' ⟨⟩
  rfl

lemma bytes (count : Nat) : Stable (Read.bytes count) := by
  intro tail r x r' hread
  unfold Read.bytes at hread ⊢
  split at hread
  case isFalse => cases hread
  case isTrue hle =>
    obtain ⟨rfl, rfl⟩ := EStateM.Result.ok.inj hread
    have hsize : r.offset + count ≤ (r.bytes ++ tail).size := by
      rw [Array.size_append]
      omega
    have hextract : (r.bytes ++ tail).extract r.offset (r.offset + count) =
        r.bytes.extract r.offset (r.offset + count) := by
      rw [Array.extract_append, Nat.sub_eq_zero_of_le hle, Array.extract_zero, Array.append_empty]
    rw [Reader.extend]
    dsimp only
    rw [if_pos hsize, hextract]
    rfl

end Stable

/-- More bytes do not change a read that asks of the length of the buffer only whether it suffices. -/
theorem Composed.stable {read : Read α} (h : Composed read) : Stable read := by
  induction h with
  | pure x => exact .pure x
  | blame _ => exact .throw _
  | offset => exact .offset
  | room _ hgrows ih =>
    refine Lasts.length_bind fun size more hle tail r x r' hread => ?_
    exact ih more tail r x r' (hgrows size more hle r x r' hread)
  | bytes count => exact .bytes count
  | bind _ _ ih ihnext => exact ih.bind ihnext

/-- Where the read succeeds, the reader stands at the offset. -/
def StopsAt (read : Read α) (stop : Nat) : Prop :=
  ∀ r x r', read r = .ok x r' → r'.offset = stop

namespace StopsAt

variable {stop : Nat}

lemma bind {read : Read α} {next : α → Read β} (h : ∀ x, StopsAt (next x) stop) :
    StopsAt (read >>= next) stop := by
  intro r y r' hread
  obtain ⟨x, t, -, hread⟩ := run_bind_eq_ok_iff.mp hread
  exact h x t y r' hread

lemma enter (sections : List Nat) (index : Nat) (x : α) :
    StopsAt (Read.enter sections index >>= fun _ => pure x) (sections.getD index 0) := by
  intro r y r' hread
  have henter : Read.enter sections index r =
      if r.offset = sections.getD index 0 then .ok () r
      else .error (.malformed r.offset (.sectionElsewhere index (sections.getD index 0))) r := by
    unfold Read.enter
    rw [bind_of_ok (rfl : Read.offset r = .ok r.offset r)]
    split <;> rfl
  by_cases hhere : r.offset = sections.getD index 0
  · rw [if_pos hhere] at henter
    rw [bind_of_ok henter] at hread
    cases hread
    exact hhere
  · rw [if_neg hhere] at henter
    rw [bind_of_error henter] at hread
    cases hread

end StopsAt

namespace Read

variable {r r' : Reader}

lemma sectionOffset_of_ok {index start : Nat} (h : sectionOffset index r = .ok start r') :
    ∃ w, word r = .ok w (r.skip 4) ∧ start = 4 * w.toNat ∧ r' = r.skip 4 := by
  obtain ⟨here, t, ⟨⟩, h⟩ := run_bind_eq_ok_iff.mp h
  obtain ⟨w, t, hword, h⟩ := run_bind_eq_ok_iff.mp h
  obtain rfl := word_of_ok hword
  obtain ⟨size, t, ⟨⟩, h⟩ := run_bind_eq_ok_iff.mp h
  split at h
  · obtain ⟨rfl, rfl⟩ := EStateM.Result.ok.inj h
    exact ⟨w, hword, Nat.mul_comm _ _, rfl⟩
  · cases h

lemma mapM_sectionOffset_of_ok {indices starts : List Nat}
    (h : indices.mapM sectionOffset r = .ok starts r') {i : Nat} (hi : i < indices.length) :
    ∃ w, word (r.skip (4 * i)) = .ok w (r.skip (4 * i + 4)) ∧ starts.getD i 0 = 4 * w.toNat := by
  induction indices generalizing r starts i with
  | nil => cases hi
  | cons index indices ih =>
    rw [List.mapM_cons] at h
    obtain ⟨start, t, hfirst, h⟩ := run_bind_eq_ok_iff.mp h
    obtain ⟨w, hw, rfl, rfl⟩ := sectionOffset_of_ok hfirst
    obtain ⟨more, t, hrest, h⟩ := run_bind_eq_ok_iff.mp h
    obtain ⟨rfl, rfl⟩ := EStateM.Result.ok.inj h
    cases i with
    | zero => exact ⟨w, hw, rfl⟩
    | succ i =>
      obtain ⟨v, hv, hstart⟩ := ih hrest (Nat.lt_of_succ_lt_succ hi)
      rw [Reader.skip_skip, Reader.skip_skip, ← Nat.add_assoc, Nat.add_comm 4] at hv
      exact ⟨v, hv, hstart⟩

lemma sectionOffsets_of_ok {sections : List Nat} (h : sectionOffsets r = .ok sections r')
    {i : Nat} (hi : i < sectionCount) :
    ∃ w, word (r.skip (4 * i)) = .ok w (r.skip (4 * i + 4)) ∧ sections.getD i 0 = 4 * w.toNat := by
  obtain ⟨starts, t, hstarts, h⟩ := run_bind_eq_ok_iff.mp h
  obtain ⟨here, t, -, h⟩ := run_bind_eq_ok_iff.mp h
  obtain ⟨reserved, t, -, h⟩ := run_bind_eq_ok_iff.mp h
  split at h
  · obtain ⟨rfl, -⟩ := EStateM.Result.ok.inj h
    exact mapM_sectionOffset_of_ok hstarts (List.length_range ▸ hi)
  · cases h

lemma declarations_of_ok {s : Script} (h : declarations r = .ok s r') :
    ∃ w, word (r.skip 28) = .ok w (r.skip 32) ∧ r'.offset = 4 * w.toNat := by
  obtain ⟨sections, t, hsections, h⟩ := run_bind_eq_ok_iff.mp h
  -- What comes between reads on, and the last step is to enter the code section.
  have hstop : r'.offset = sections.getD 7 0 := by
    refine StopsAt.bind (fun _ => ?_) t s r' h
    iterate 14 refine StopsAt.bind fun _ => ?_
    exact StopsAt.enter sections 7 _
  obtain ⟨w, hw, hstart⟩ := sectionOffsets_of_ok hsections (i := 7) (by decide)
  exact ⟨w, hw, hstop.trans hstart⟩

end Read

namespace Script

variable {options : Options} {bytes : Array UInt8} {s : Script}

/-- The words of an accepted container that say where its code begins and how long it is. -/
structure CodeWords (bytes : Array UInt8) (start count : UInt32) : Prop where
  header : Read.word ⟨bytes, magic.length + 4 * 7⟩ = .ok start ⟨bytes, magic.length + 4 * 8⟩
  counted : Read.word ⟨bytes, 4 * start.toNat⟩ = .ok count ⟨bytes, 4 * start.toNat + 4⟩
  size : bytes.size = 4 * start.toNat + 4 + 4 * count.toNat

lemma Accounted.codeWords {declared : Script} {base : Nat} {count : UInt32} {found : Findings}
    (h : s.Accounted bytes declared base count found) :
    ∃ start, base = 4 * start.toNat ∧ CodeWords bytes start count := by
  obtain ⟨start, hheader, hbase⟩ := Read.declarations_of_ok h.sections
  obtain rfl : base = 4 * start.toNat := hbase
  obtain ⟨-, hend⟩ := (Read.region_accounts declared _).of_ok h.region
  have hall := h.accounts.total
  have hsize : 4 * start.toNat + 4 + _ = bytes.size := hend.total
  exact ⟨start, rfl, hheader, h.counted, by omega⟩

/-- With more bytes at its end a container is refused at the count of its code words. -/
lemma Accounted.parse_append {declared : Script} {base : Nat} {count : UInt32} {found : Findings}
    (h : s.Accounted bytes declared base count found)
    (hsize : bytes.size = base + 4 + 4 * count.toNat) (hmagic : bytes.toList.take magic.length = magic)
    {tail : Array UInt8} (htail : tail ≠ #[]) (options : Options) :
    parse options (bytes ++ tail) =
      .error (.malformed base (.codeLength count.toNat (4 * count.toNat + tail.size))) := by
  have hpos : 0 < tail.size := Array.size_pos_iff.mpr htail
  have hlength : magic.length ≤ bytes.toList.length := by
    have := congrArg List.length hmagic
    rw [List.length_take] at this
    omega
  have hmagic' : (bytes ++ tail).toList.take magic.length = magic := by
    rw [Array.toList_append, List.take_append_of_le_length hlength, hmagic]
  have hsections : Read.declarations ⟨bytes ++ tail, magic.length⟩ =
      .ok declared ⟨bytes ++ tail, base⟩ := Composed.declarations.stable tail _ _ _ h.sections
  have hcount : Read.word ⟨bytes ++ tail, base⟩ = .ok count ⟨bytes ++ tail, base + 4⟩ :=
    Composed.word.stable tail _ _ _ h.counted
  have hremaining : Reader.remaining ⟨bytes ++ tail, base + 4⟩ = 4 * count.toNat + tail.size := by
    rw [Reader.remaining, Array.size_append]
    dsimp only
    omega
  have hdiffers : count.toNat * 4 ≠ Reader.remaining ⟨bytes ++ tail, base + 4⟩ := by omega
  have hcode : Read.code options declared ⟨bytes ++ tail, base⟩ =
      .error (.malformed base (.codeLength count.toNat (4 * count.toNat + tail.size)))
        ⟨bytes ++ tail, base + 4⟩ := by
    rw [Read.code_of_word hcount, if_pos hdiffers, hremaining]
  unfold parse
  rw [if_neg (not_not.mpr hmagic'), Read.script_eq, bind_of_ok hsections, hcode]

lemma magic_of_parse (h : parse options bytes = .ok s) : bytes.toList.take magic.length = magic := by
  unfold parse at h
  split at h
  · cases h
  case isFalse hmagic => exact not_not.mp hmagic

/-- What follows a container that is accepted is noticed at its count of code words, whichever
options are chosen. So a container that breaks off is not accepted either. -/
theorem parse_append_fails (h : parse options bytes = .ok s) :
    (∃ start count, CodeWords bytes start count ∧ ∀ (options : Options) (tail : Array UInt8),
      tail ≠ #[] → parse options (bytes ++ tail) = .error (.malformed (4 * start.toNat)
        (.codeLength count.toNat (4 * count.toNat + tail.size)))) ∧
    ∀ (options : Options) (front tail : Array UInt8), bytes = front ++ tail → tail ≠ #[] →
      ∃ e, parse options front = .error e := by
  constructor
  · obtain ⟨declared, base, count, found, hall⟩ := exists_accounted h
    obtain ⟨start, rfl, hwords⟩ := hall.codeWords
    exact ⟨start, count, hwords, fun options tail htail =>
      hall.parse_append hwords.size (magic_of_parse h) htail options⟩
  · rintro options' front tail rfl htail
    cases hfront : parse options' front with
    | error e => exact ⟨e, rfl⟩
    | ok s' =>
      obtain ⟨declared, base, count, found, hall⟩ := exists_accounted hfront
      obtain ⟨start, rfl, hwords⟩ := hall.codeWords
      rw [hall.parse_append hwords.size (magic_of_parse hfront) htail options] at h
      cases h

theorem lodge_append_fails : ∃ s, parse .lenient lodge = .ok s ∧
    (∃ start count, CodeWords lodge start count ∧ ∀ (options : Options) (tail : Array UInt8),
      tail ≠ #[] → parse options (lodge ++ tail) = .error (.malformed (4 * start.toNat)
        (.codeLength count.toNat (4 * count.toNat + tail.size)))) ∧
    ∀ (options : Options) (front tail : Array UInt8), lodge = front ++ tail → tail ≠ #[] →
      ∃ e, parse options front = .error e := by
  obtain ⟨s, hparse, -⟩ := lodge_parses
  exact ⟨s, hparse, parse_append_fails hparse⟩

end Script

end ScriptContainer
