import Switchboard.Proofs.Envelope.RoundTrip

/-!
# What is wrong with octets, and what is missing

A run of octets is no envelope for one of two reasons. Something that is there is wrong, a flag or
a text: then it stays wrong whatever follows, and the fault stays the same (`Steady`). Or something
is missing. That is so whenever an envelope is cut short: its fields stand one after the other, each
in a segment of the octets (`Envelope.segments`), so the place of the cut tells which of them it
falls into, and the fault tells whether that is a text whose length is still there (`missing`).

Both are shown for a reader of one field (`Tells`) and carried from there through the chain of
readers. `decode_error_of_wrong_or_cut` puts this together.
-/

namespace Switchboard

namespace Binary

/-- Whether a fault is that octets are missing, and not that those which are there are wrong. -/
def Fault.isShortage : Fault → Bool
  | endOfInput => true
  | shortText => true
  | badFlag _ => false
  | badText _ => false

/-- The segment of a run that a field is written in. -/
inductive Segment
  | text (text : String)
  /-- That of a field that is no text: of a number, a flag or a payload. -/
  | other (octets : Bytes)

namespace Segment

def octets : Segment → Bytes
  | text t => writeText t
  | other bytes => bytes

theorem length_octets_text (t : String) : (text t).octets.length = 8 + t.utf8ByteSize := by
  rw [octets, writeText, List.length_append, Bytes.length_littleEndian, length_octets]

/-- What is missing of a segment if its first `n` octets are all that is there. -/
def missing (n : Nat) : Segment → Fault
  | text _ => if n < 8 then .endOfInput else .shortText
  | other _ => .endOfInput

end Segment

/-- The octets of some segments, one after the other. -/
def octets (segments : List Segment) : Bytes := segments.flatMap Segment.octets

theorem octets_cons (segment : Segment) (segments : List Segment) :
    octets (segment :: segments) = segment.octets ++ octets segments := List.flatMap_cons

/-- What is missing of some segments if their first `n` octets are all that is there. -/
def missing : List Segment → Nat → Fault
  | [], _ => .endOfInput
  | segment :: segments, n =>
      if n < segment.octets.length then segment.missing n
      else missing segments (n - segment.octets.length)

/-- The first `n` octets of some segments end in a text: all eight octets of its length are among
them, and not all of its own. -/
def EndsInText (segments : List Segment) (n : Nat) : Prop :=
  ∃ before text after, segments = before ++ .text text :: after ∧
    (octets before).length + 8 ≤ n ∧ n < (octets before).length + 8 + text.utf8ByteSize

section

variable {α β : Type}

/-- What is wrong in the octets that are there stays wrong whatever follows them. -/
def Steady (read : Bytes → Except Fault α) : Prop :=
  ∀ bytes fault, fault.isShortage = false → read bytes = .error fault →
    ∀ rest, read (bytes ++ rest) = .error fault

/-- If some segments are cut short, what is missing is told. -/
def TellsCut (read : Bytes → Except Fault α) (segments : List Segment) : Prop :=
  ∀ n < (octets segments).length, read ((octets segments).take n) = .error (missing segments n)

/-- A reader of one field tells it from octets that are wrong and from octets that are too few. -/
structure Tells (read : Reader α) (segment : α → Segment) (Fits : α → Prop) : Prop
    extends Exact read (fun a => (segment a).octets) Fits where
  steady : Steady read
  /-- If the segment is cut short, what is missing is told. -/
  cut : ∀ a n, Fits a → n < (segment a).octets.length →
    read ((segment a).octets.take n) = .error ((segment a).missing n)

end

/-! ## Fields -/

theorem readWord_of_short (width : Nat) : ∀ {bytes : Bytes}, bytes.length < width →
    readWord width bytes = .error .endOfInput := by
  induction width with
  | zero => exact fun h => absurd h (Nat.not_lt_zero _)
  | succ width ih =>
      intro bytes h
      cases bytes with
      | nil => rfl
      | cons b bytes => rw [readWord, ih (Nat.lt_of_succ_lt_succ h)]

/-- Nothing can be wrong with a word. -/
theorem readWord_ne (width : Nat) {fault : Fault} (hwrong : fault.isShortage = false) :
    ∀ {bytes : Bytes}, readWord width bytes ≠ .error fault := by
  induction width with
  | zero => exact nofun
  | succ width ih =>
      intro bytes h
      cases bytes with
      | nil =>
          cases h
          cases hwrong
      | cons b bytes =>
          rw [readWord] at h
          split at h
          · cases h
          · next hword =>
              cases h
              exact ih hword

theorem readWord_append {width n : Nat} {bytes after : Bytes}
    (h : readWord width bytes = .ok (n, after)) (rest : Bytes) :
    readWord width (bytes ++ rest) = .ok (n, after ++ rest) := by
  obtain ⟨rfl, hlt⟩ := littleEndian_of_readWord width h
  rw [List.append_assoc, readWord_littleEndian width n _ hlt]

/-- Of octets behind their number, cut anywhere, the number can be read if it is all there. -/
theorem readWord_take {size : Nat} (h : size < 256 ^ 8) (bytes : Bytes) (n : Nat) :
    readWord 8 ((Bytes.littleEndian 8 size ++ bytes).take n)
      = if n < 8 then .error .endOfInput else .ok (size, bytes.take (n - 8)) := by
  by_cases hlength : n < 8
  · rw [if_pos hlength]
    refine readWord_of_short 8 ?_
    rw [List.length_take]
    omega
  · have hword : (Bytes.littleEndian 8 size).take n = Bytes.littleEndian 8 size :=
      List.take_of_length_le (by rw [Bytes.length_littleEndian]; omega)
    rw [if_neg hlength, List.take_append, hword, Bytes.length_littleEndian,
      readWord_littleEndian 8 _ _ h]

theorem steady_text : Steady readText := by
  intro bytes fault hwrong h rest
  rw [readText] at h ⊢
  split at h
  · next hword =>
      cases h
      exact absurd hword (readWord_ne 8 hwrong)
  · next length after hword =>
      rw [readWord_append hword]
      split at h
      · cases h
        cases hwrong
      · next hlength =>
          have hle : length ≤ after.length := Nat.not_lt.1 hlength
          -- the text is all there, so it is the same with octets behind it
          have htake : (after ++ rest).take length = after.take length :=
            List.take_append_of_le_length hle
          have hrest : ¬ (after ++ rest).length < length := by
            rw [List.length_append]
            omega
          simp only [hrest, if_false, htake]
          split at h
          · cases h
          · exact h

theorem tells_text : Tells readText .text TextFits where
  toExact := exact_text
  steady := steady_text
  cut text n hfits hn := by
    rw [Segment.length_octets_text] at hn
    rw [Segment.octets, Segment.missing, readText, writeText, readWord_take hfits]
    by_cases hlength : n < 8
    · simp only [hlength, if_true]
    · -- the length is there, and tells of more octets than there are
      have hshort : ((Utf8.octets text).take (n - 8)).length < text.utf8ByteSize := by
        rw [List.length_take]
        omega
      simp only [hlength, if_false, hshort, if_true]

/-- What is written as one word is there or is not. -/
theorem tells_word {α : Type} (width : Nat) (ofWord : Nat → α) {write : α → Bytes}
    (hexact : Exact (fun bytes => do let (n, rest) ← readWord width bytes; return (ofWord n, rest))
      write fun _ => True) (hwidth : ∀ a, (write a).length = width) :
    Tells (fun bytes => do let (n, rest) ← readWord width bytes; return (ofWord n, rest))
      (fun a => .other (write a)) fun _ => True where
  toExact := hexact
  steady bytes fault hwrong h := by
    dsimp only at h
    cases hword : readWord width bytes with
    | error missing =>
        rw [hword] at h
        cases h
        exact absurd hword (readWord_ne width hwrong)
    | ok word =>
        rw [hword] at h
        cases h
  cut a n _ hn := by
    change n < (write a).length at hn
    have hshort : ((write a).take n).length < width := by
      rw [List.length_take, ← hwidth a]
      omega
    show (readWord width ((write a).take n) >>= _) = _
    rw [readWord_of_short width hshort]
    rfl

theorem tells_uint32 : Tells readUInt32 (fun n => .other (writeUInt32 n)) fun _ => True :=
  tells_word 4 UInt32.ofNat exact_uint32 fun _ => Bytes.length_littleEndian ..

theorem tells_int32 : Tells readInt32 (fun n => .other (writeInt32 n)) fun _ => True :=
  tells_word 4 (fun n => (UInt32.ofNat n).toInt32) exact_int32 fun _ => Bytes.length_littleEndian ..

theorem tells_int64 : Tells readInt64 (fun n => .other (writeInt64 n)) fun _ => True :=
  tells_word 8 (fun n => (UInt64.ofNat n).toInt64) exact_int64 fun _ => Bytes.length_littleEndian ..

theorem tells_flag : Tells readFlag (fun flag => .other (writeFlag flag)) fun _ => True where
  toExact := exact_flag
  steady bytes fault hwrong h := by
    cases bytes with
    | nil =>
        cases h
        cases hwrong
    | cons b bytes =>
        intro rest
        rw [readFlag] at h
        rw [List.cons_append, readFlag]
        split at h
        · cases h
        · next hzero =>
            split at h
            · cases h
            · next hone => rw [if_neg hzero, if_neg hone, h]
  cut flag n _ hn := by
    obtain rfl : n = 0 := Nat.lt_one_iff.1 hn
    rfl

theorem tells_payload :
    Tells readPayload (fun payload => .other (writePayload payload)) PayloadFits where
  toExact := exact_payload
  steady bytes fault hwrong h := by
    -- nothing is wrong with a payload but that it is not all there
    rw [readPayload] at h
    split at h
    · next hword =>
        cases h
        exact absurd hword (readWord_ne 8 hwrong)
    · split at h
      · cases h
        cases hwrong
      · cases h
  cut payload n hfits hn := by
    show readPayload ((writePayload payload).take n) = .error .endOfInput
    change n < (writePayload payload).length at hn
    rw [writePayload, List.length_append, Bytes.length_littleEndian] at hn
    rw [readPayload, writePayload, readWord_take hfits]
    by_cases hlength : n < 8
    · simp only [hlength, if_true]
    · have hshort : (payload.take (n - 8)).length < payload.length := by
        rw [List.length_take]
        omega
      simp only [hlength, if_false, hshort, if_true]

/-! ## One field after another -/

section

variable {α β : Type} {read : Reader α} {segment : α → Segment} {Fits : α → Prop} {a : α}
  {next : α × Bytes → Except Fault β} {segments : List Segment} {n : Nat}

theorem Steady.bind (hread : Tells read segment Fits)
    (hnext : ∀ a, Steady fun bytes => next (a, bytes)) :
    Steady fun bytes => read bytes >>= next := by
  intro bytes fault hwrong h rest
  dsimp only at h ⊢
  cases hfirst : read bytes with
  | error fault' =>
      rw [hfirst] at h
      cases h
      rw [hread.steady bytes fault hwrong hfirst rest]
      rfl
  | ok first =>
      obtain ⟨a, left⟩ := first
      rw [hfirst] at h
      obtain ⟨rfl, hfits⟩ := hread.eq_write hfirst
      rw [List.append_assoc, hread.read_write a _ hfits]
      exact hnext a left fault hwrong h rest

theorem TellsCut.bind (hread : Tells read segment Fits) (hfits : Fits a)
    (hnext : TellsCut (fun bytes => next (a, bytes)) segments) :
    TellsCut (fun bytes => read bytes >>= next) (segment a :: segments) := by
  intro n hn
  dsimp only
  rw [octets_cons, List.length_append] at hn
  rw [octets_cons, missing]
  by_cases hcut : n < (segment a).octets.length
  · rw [List.take_append_of_le_length (Nat.le_of_lt hcut), hread.cut a n hfits hcut, if_pos hcut]
    rfl
  · obtain ⟨k, rfl⟩ := Nat.exists_eq_add_of_le (Nat.not_lt.1 hcut)
    rw [List.take_append, List.take_of_length_le (Nat.le_add_right ..), Nat.add_sub_cancel_left,
      hread.read_write a _ hfits, if_neg hcut]
    exact hnext k (by omega)

/-- Where nothing is written nothing can be cut. -/
theorem tellsCut_nil (read : Bytes → Except Fault β) : TellsCut read [] :=
  fun n hn => absurd hn (Nat.not_lt_zero n)

theorem steady_envelope : Steady readEnvelope :=
  .bind tells_text fun _ => .bind tells_text fun _ => .bind tells_text fun _ =>
  .bind tells_text fun _ => .bind tells_int32 fun _ => .bind tells_int32 fun _ =>
  .bind tells_text fun _ => .bind tells_flag fun _ => .bind tells_uint32 fun _ =>
  .bind tells_uint32 fun _ => .bind tells_int64 fun _ => .bind tells_text fun _ =>
  .bind tells_payload fun _ => nofun

end

/-! ## Where a cut falls -/

variable {segments : List Segment} {segment : Segment} {n : Nat}

theorem Segment.missing_cases (segment : Segment) (n : Nat) :
    segment.missing n = .shortText ∨ segment.missing n = .endOfInput := by
  cases segment with
  | text t =>
      rw [missing]
      split
      · exact Or.inr rfl
      · exact Or.inl rfl
  | other bytes => exact Or.inr rfl

theorem missing_cases (segments : List Segment) (n : Nat) :
    missing segments n = .shortText ∨ missing segments n = .endOfInput := by
  induction segments generalizing n with
  | nil => exact Or.inr rfl
  | cons segment segments ih =>
      rw [missing]
      split
      · exact segment.missing_cases n
      · exact ih _

theorem Segment.missing_eq_shortText_iff (h : n < segment.octets.length) :
    segment.missing n = .shortText ↔ ∃ t, segment = .text t ∧ 8 ≤ n ∧ n < 8 + t.utf8ByteSize := by
  cases segment with
  | text t =>
      rw [length_octets_text] at h
      rw [missing]
      by_cases hlength : n < 8
      · rw [if_pos hlength]
        refine iff_of_false nofun ?_
        rintro ⟨-, -, hlow, -⟩
        exact Nat.not_le.2 hlength hlow
      · rw [if_neg hlength]
        exact iff_of_true rfl ⟨t, rfl, Nat.not_lt.1 hlength, h⟩
  | other bytes => exact iff_of_false nofun nofun

/-- A cut falls into a text just if it falls into the first segment and that is a text, or into a
text behind it. -/
theorem endsInText_cons_iff :
    EndsInText (segment :: segments) n
      ↔ (∃ t, segment = .text t ∧ 8 ≤ n ∧ n < 8 + t.utf8ByteSize) ∨
        segment.octets.length ≤ n ∧ EndsInText segments (n - segment.octets.length) := by
  constructor
  · rintro ⟨before, t, after, heq, hlow, hhigh⟩
    cases before with
    | nil =>
        obtain ⟨rfl, rfl⟩ := List.cons_eq_cons.1 heq
        rw [octets, List.flatMap_nil, List.length_nil, Nat.zero_add] at hlow hhigh
        exact Or.inl ⟨t, rfl, hlow, hhigh⟩
    | cons first before =>
        obtain ⟨rfl, rfl⟩ := List.cons_eq_cons.1 heq
        rw [octets_cons, List.length_append] at hlow hhigh
        exact Or.inr ⟨by omega, before, t, after, rfl, by omega, by omega⟩
  · rintro (⟨t, rfl, hlow, hhigh⟩ | ⟨hle, before, t, after, rfl, hlow, hhigh⟩)
    · refine ⟨[], t, segments, rfl, ?_, ?_⟩
      · rwa [octets, List.flatMap_nil, List.length_nil, Nat.zero_add]
      · rwa [octets, List.flatMap_nil, List.length_nil, Nat.zero_add]
    · refine ⟨segment :: before, t, after, rfl, ?_, ?_⟩
      · rw [octets_cons, List.length_append]
        omega
      · rw [octets_cons, List.length_append]
        omega

/-- The octets of a text are missing just if its length is there and they are not. -/
theorem missing_eq_shortText_iff :
    missing segments n = .shortText ↔ EndsInText segments n := by
  induction segments generalizing n with
  | nil =>
      refine iff_of_false nofun ?_
      rintro ⟨before, t, after, heq, -⟩
      cases before <;> cases heq
  | cons segment segments ih =>
      rw [missing, endsInText_cons_iff]
      by_cases hcut : n < segment.octets.length
      · rw [if_pos hcut, Segment.missing_eq_shortText_iff hcut,
          or_iff_left fun h => Nat.not_le.2 hcut h.1]
      · have hle := Nat.not_lt.1 hcut
        rw [if_neg hcut, ih, or_iff_right, and_iff_right hle]
        rintro ⟨t, rfl, -, hhigh⟩
        rw [Segment.length_octets_text] at hle
        omega

instance (segments : List Segment) (n : Nat) : Decidable (EndsInText segments n) :=
  decidable_of_iff (missing segments n = .shortText) missing_eq_shortText_iff

/-- Else what is missing is told as the end of the octets. -/
theorem missing_eq_endOfInput_iff :
    missing segments n = .endOfInput ↔ ¬ EndsInText segments n := by
  rw [← missing_eq_shortText_iff]
  rcases missing_cases segments n with h | h <;> simp [h]

end Binary

open Binary

namespace Envelope

variable {bytes : Bytes} {fault : Binary.Fault} {e : Envelope} {n : Nat}

/-- The segments of an envelope: its fields in the order in which they are written. -/
def segments (e : Envelope) : List Segment :=
  [.text e.sender, .text e.recipient, .text e.tag, .text e.content,
    .other (writeInt32 e.contentType), .other (writeInt32 e.messageType), .text e.messageId,
    .other (writeFlag e.isFragment), .other (writeUInt32 e.fragmentIndex),
    .other (writeUInt32 e.fragmentTotal), .other (writeInt64 e.timestamp), .text e.checksum,
    .other (writePayload e.payload)]

theorem octets_segments (e : Envelope) : octets e.segments = e.encode := by
  simp only [segments, octets, List.flatMap_cons, List.flatMap_nil, List.append_nil, Segment.octets,
    encode]

theorem tellsCut_segments (h : e.Fits) : TellsCut readEnvelope e.segments :=
  .bind tells_text h.sender <| .bind tells_text h.recipient <| .bind tells_text h.tag <|
  .bind tells_text h.content <| .bind tells_int32 trivial <| .bind tells_int32 trivial <|
  .bind tells_text h.messageId <| .bind tells_flag trivial <| .bind tells_uint32 trivial <|
  .bind tells_uint32 trivial <| .bind tells_int64 trivial <| .bind tells_text h.checksum <|
  .bind (a := e.payload) tells_payload h.payload <| tellsCut_nil _

theorem decode_eq_error_iff : decode bytes = .error fault ↔ readEnvelope bytes = .error fault := by
  rw [decode]
  cases readEnvelope bytes with
  | ok read => simp only [reduceCtorEq]
  | error fault' => rw [Except.error.injEq, Except.error.injEq]

/-- What is wrong with octets stays wrong whatever follows. -/
theorem decode_append_of_wrong (hwrong : fault.isShortage = false)
    (h : decode bytes = .error fault) (rest : Bytes) : decode (bytes ++ rest) = .error fault :=
  decode_eq_error_iff.2 (steady_envelope bytes fault hwrong (decode_eq_error_iff.1 h) rest)

/-- An envelope that is cut short is refused for what is missing. -/
theorem decode_take (h : e.Fits) (hn : n < e.encode.length) :
    decode (e.encode.take n) = .error (missing e.segments n) := by
  rw [← octets_segments] at hn ⊢
  exact decode_eq_error_iff.2 (tellsCut_segments h n hn)

/-- **A fault tells what is the matter.** If a flag or a text is wrong, the fault stays the same
whatever follows. If the octets are the beginning of an envelope, and not all of it, nothing is
wrong with them: the fault is that a text is short, just if all octets of the length of a text are
there and not all of its own, and else that the octets end. -/
theorem decode_error_of_wrong_or_cut (bytes : Bytes) :
    (∀ octet, decode bytes = .error (.badFlag octet) →
      ∀ rest, decode (bytes ++ rest) = .error (.badFlag octet)) ∧
    (∀ place, decode bytes = .error (.badText place) →
      ∀ rest, decode (bytes ++ rest) = .error (.badText place)) ∧
    ∀ e : Envelope, e.Fits → bytes <+: e.encode → bytes ≠ e.encode →
      (decode bytes = .error .shortText ↔ EndsInText e.segments bytes.length) ∧
      (decode bytes = .error .endOfInput ↔ ¬ EndsInText e.segments bytes.length) := by
  refine ⟨fun octet h rest => decode_append_of_wrong rfl h rest,
    fun place h rest => decode_append_of_wrong rfl h rest, fun e hfits hstart hne => ?_⟩
  have hlength : bytes.length < e.encode.length :=
    Nat.lt_of_le_of_ne hstart.length_le fun heq => hne (hstart.eq_of_length heq)
  have hdecode : decode bytes = .error (missing e.segments bytes.length) := by
    have htake := decode_take hfits hlength
    rwa [← List.prefix_iff_eq_take.1 hstart] at htake
  rw [hdecode, Except.error.injEq, Except.error.injEq]
  exact ⟨missing_eq_shortText_iff, missing_eq_endOfInput_iff⟩

/-- A note that is cut within its sender, within a length and within its payload; and octets with a
text and with a flag that is none, others behind them. -/
theorem decode_error_of_wrong_or_cut_note :
    let e : Envelope := { sender := "ann", recipient := "bob", messageId := "é", payload := [1, 2] }
    let misspelt : Bytes := [1, 0, 0, 0, 0, 0, 0, 0, 0xFF]
    let unflagged : Bytes := List.replicate 48 0 ++ [7]
    e.Fits ∧
      decode (e.encode.take 8) = .error .shortText ∧
      decode (e.encode.take 18) = .error .endOfInput ∧
      decode (e.encode.take 90) = .error .endOfInput ∧
      decode (misspelt ++ [1, 2]) = .error (.badText ⟨0, some 1⟩) ∧
      decode (unflagged ++ [1, 2]) = .error (.badFlag 7) := by
  intro e misspelt unflagged
  have hlength : e.encode.length = 91 := rfl
  have hfits : e.Fits := fits_of_length (by rw [hlength]; decide)
  have hcut (n : Nat) (hn : n < 91) : e.encode.take n ≠ e.encode := by
    intro heq
    have htake := congrArg List.length heq
    rw [List.length_take, hlength] at htake
    omega
  have hshort (n : Nat) (hn : n < 91) :=
    (decode_error_of_wrong_or_cut (e.encode.take n)).2.2 e hfits (List.take_prefix ..) (hcut n hn)
  have hsender : EndsInText e.segments (e.encode.take 8).length := by decide
  have hnumber : ¬ EndsInText e.segments (e.encode.take 18).length := by decide
  have hpayload : ¬ EndsInText e.segments (e.encode.take 90).length := by decide
  have htext : decode misspelt = .error (.badText ⟨0, some 1⟩) := rfl
  have hflag : decode unflagged = .error (.badFlag 7) := rfl
  exact ⟨hfits, (hshort 8 (by decide)).1.2 hsender, (hshort 18 (by decide)).2.2 hnumber,
    (hshort 90 (by decide)).2.2 hpayload,
    (decode_error_of_wrong_or_cut misspelt).2.1 _ htext [1, 2],
    (decode_error_of_wrong_or_cut unflagged).1 7 hflag [1, 2]⟩

end Envelope

end Switchboard
