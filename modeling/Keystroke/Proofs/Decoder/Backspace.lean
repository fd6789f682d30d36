import Keystroke.Proofs.Decoder.Provenance

/-! # The erase character

What the choice of the erase character changes. Below DEL it changes nothing. A byte
that is neither below DEL nor a lead byte is invalid input without it, and is the
erase key with it, where it stands alone or behind an escape. A lead byte takes the
characters that begin with it away; runs in which none does are the same.
-/

namespace Keystroke.Decoder

/-- The bytes begin with `b`, or with an escape and `b`. -/
def Begins (b : UInt8) (bytes : Bytes) : Prop :=
  [b] <+: bytes ∨ [0x1b, b] <+: bytes

/-- The byte has no meaning but as the erase character. -/
def Stray (b : UInt8) : Prop :=
  (0x7f ≤ b.toNat ∧ b.toNat ≤ 0xbf) ∨ 0xf8 ≤ b.toNat

/-- The segment as it is with the erase character, which counts only where it has no meaning of
its own. -/
def Segment.erased (backspace : UInt8) (segment : Segment) : Segment :=
  if backspace.toNat < 0x7f then segment
  else if segment.bytes = [backspace] then { segment with event := .function .backspace }
  else if segment.bytes = [0x1b, backspace] then
    { segment with event := .press (.function .backspace) .onlyAlt }
  else segment

/-- No segment begins with the erase character, and neither does the tail, if it is a lead byte. -/
def Avoids (backspace : UInt8) (segments : List Segment) (tail : Bytes) : Prop :=
  (0xc0 ≤ backspace.toNat ∧ backspace.toNat ≤ 0xf7) →
    (∀ segment ∈ segments, ¬Begins backspace segment.bytes) ∧ ¬Begins backspace tail

variable {backspace neutral b : UInt8} {atEnd : Bool} {input : Bytes}

theorem Begins.of_prefix {start : Bytes} (h : Begins b start) (hstart : start <+: input) :
    Begins b input :=
  h.imp (·.trans hstart) (·.trans hstart)

theorem Segment.erased_of_not_begins {segment : Segment}
    (h : 0x7f ≤ backspace.toNat → ¬Begins backspace segment.bytes) :
    segment.erased backspace = segment := by
  unfold erased
  by_cases hlt : backspace.toNat < 0x7f
  · rw [if_pos hlt]
  have hnot := h (Nat.le_of_not_lt hlt)
  rw [if_neg hlt, if_neg, if_neg]
  · intro hbytes
    exact hnot (.inr (hbytes ▸ List.prefix_refl _))
  · intro hbytes
    exact hnot (.inl (hbytes ▸ List.prefix_refl _))

/-! ## One key -/

theorem decodeOne_plain (backspace : UInt8) (atEnd : Bool) (hb : b ≠ 0x1b) (rest : Bytes) :
    decodeOne backspace atEnd (b :: rest) = decodeKey backspace (b :: rest) :=
  if_neg hb

theorem decodeOne_alt (backspace : UInt8) (atEnd : Bool) (hb : 0x7f ≤ b.toNat) (rest : Bytes) :
    decodeOne backspace atEnd (0x1b :: b :: rest) =
      ((decodeKey backspace (b :: rest)).mapEvent (·.withModifiers .onlyAlt)).shift 1 := by
  have hne : ∀ c : UInt8, c.toNat < 0x7f → b ≠ c := by
    rintro c hc rfl
    omega
  rw [decodeOne_escape, decodeEscape, if_neg (hne 0x5b (by decide)), if_neg (hne 0x4f (by decide))]

/-- The erase character counts where it is the byte, and has no meaning of its own. -/
theorem singleByteEvent_congr (hneutral : neutral.toNat ≤ 0x7e)
    (h : 0x7f ≤ backspace.toNat → b ≠ backspace) :
    singleByteEvent? backspace b = singleByteEvent? neutral b := by
  by_cases hb : b.toNat < 0x7f
  · unfold singleByteEvent?
    simp only [hb, if_true]
  · have hne : b ≠ backspace := by
      rintro rfl
      exact h (Nat.le_of_not_lt hb) rfl
    have hother : b ≠ neutral := by
      rintro rfl
      omega
    rw [singleByteEvent_of_le (by omega), singleByteEvent_of_le (by omega), if_neg hne,
      if_neg hother]

theorem decodeKey_congr (hneutral : neutral.toNat ≤ 0x7e)
    (h : 0x7f ≤ backspace.toNat → b ≠ backspace) (rest : Bytes) :
    decodeKey backspace (b :: rest) = decodeKey neutral (b :: rest) := by
  rw [decodeKey, decodeKey, singleByteEvent_congr hneutral h]

theorem decodeOne_congr (hneutral : neutral.toNat ≤ 0x7e)
    (h : 0x7f ≤ backspace.toNat → ¬Begins backspace input) :
    decodeOne backspace atEnd input = decodeOne neutral atEnd input := by
  cases input with
  | nil => rfl
  | cons b rest =>
      by_cases hescape : b = 0x1b
      · subst hescape
        cases rest with
        | nil => rfl
        | cons c rest =>
            rw [decodeOne_escape, decodeOne_escape, decodeEscape, decodeEscape,
              decodeKey_congr hneutral]
            rintro hle rfl
            exact h hle (.inr ⟨rest, rfl⟩)
      · rw [decodeOne_plain _ _ hescape, decodeOne_plain _ _ hescape, decodeKey_congr hneutral]
        rintro hle rfl
        exact h hle (.inl ⟨rest, rfl⟩)

/-- A key that begins with the byte takes it. -/
theorem Begins.take {event : KeyEvent} {used : Nat} (hle : 0x7f ≤ b.toNat) (h : Begins b input)
    (hkey : decodeOne backspace atEnd input = .key event used) : Begins b (input.take used) := by
  rcases h with ⟨rest, rfl⟩ | ⟨rest, rfl⟩
  · exact .inl (List.prefix_take_iff.2 ⟨List.prefix_append _ _, (decodeOne_le hkey).1⟩)
  · have halt : _ = Step.key event used := (decodeOne_alt _ _ hle rest).symm.trans hkey
    have hwithin := ((decodeKey_within backspace (b :: rest)).mapEvent
      (·.withModifiers .onlyAlt)).shift 1
    rw [halt] at hwithin
    exact .inr (List.prefix_take_iff.2 ⟨List.prefix_append _ _, hwithin.1⟩)

/-! ## The erase character itself -/

theorem Stray.le (h : Stray b) : 0x7f ≤ b.toNat := by
  rcases h with h | h <;> omega

theorem Stray.not_lead (h : Stray b) : ¬(0xc0 ≤ b.toNat ∧ b.toNat ≤ 0xf7) := by
  rcases h with h | h <;> omega

theorem decodeKey_backspace (h : 0x7f ≤ backspace.toNat) (rest : Bytes) :
    decodeKey backspace (backspace :: rest) = .key (.function .backspace) 1 := by
  rw [decodeKey, singleByteEvent_of_le h, if_pos rfl]

theorem decodeKey_stray (hneutral : neutral.toNat ≤ 0x7e) (h : Stray b) (rest : Bytes) :
    decodeKey neutral (b :: rest) = .key .invalid 1 := by
  have hle := h.le
  have hne : b ≠ neutral := by
    rintro rfl
    omega
  rw [decodeKey, singleByteEvent_of_le hle, if_neg hne]
  by_cases hdel : b = 0x7f
  · rw [if_pos hdel]
  · rw [if_neg hdel]
    dsimp only
    rw [Utf8.decode, Utf8.lead_eq_none h.not_lead]

/-- Where a stray byte begins, it is a key by itself or with the escape, invalid input without it
as the erase character. -/
theorem Begins.of_stray (hneutral : neutral.toNat ≤ 0x7e) (hstray : Stray backspace)
    (h : Begins backspace input) (atEnd : Bool) :
    ∃ code event, code <+: input ∧
      decodeOne neutral atEnd input = .key .invalid code.length ∧
      decodeOne backspace atEnd input = .key event code.length ∧
      Segment.erased backspace ⟨code, .invalid, false⟩ = ⟨code, event, false⟩ := by
  have hle := hstray.le
  have hlt : ¬backspace.toNat < 0x7f := Nat.not_lt.2 hle
  rcases h with hstart | hstart
  · obtain ⟨rest, rfl⟩ := hstart
    have hne : backspace ≠ 0x1b := by
      rintro rfl
      exact absurd hle (by decide)
    refine ⟨[backspace], .function .backspace, List.prefix_append _ _, ?_, ?_, ?_⟩
    · exact (decodeOne_plain neutral atEnd hne rest).trans (decodeKey_stray hneutral hstray rest)
    · exact (decodeOne_plain backspace atEnd hne rest).trans (decodeKey_backspace hle rest)
    · rw [Segment.erased, if_neg hlt, if_pos rfl]
  · obtain ⟨rest, rfl⟩ := hstart
    refine ⟨[0x1b, backspace], .press (.function .backspace) .onlyAlt, List.prefix_append _ _,
      ?_, ?_, ?_⟩
    · refine (decodeOne_alt neutral atEnd hle rest).trans ?_
      rw [decodeKey_stray hneutral hstray]
      rfl
    · refine (decodeOne_alt backspace atEnd hle rest).trans ?_
      rw [decodeKey_backspace hle]
      rfl
    · rw [Segment.erased, if_neg hlt, if_neg (by simp), if_pos rfl]

/-- If input that begins with the erase character is none that begins with a lead byte, it begins
with a stray byte. -/
theorem begins_or_not (backspace : UInt8) (input : Bytes)
    (h : (0xc0 ≤ backspace.toNat ∧ backspace.toNat ≤ 0xf7) → ¬Begins backspace input) :
    (Stray backspace ∧ Begins backspace input) ∨
      (0x7f ≤ backspace.toNat → ¬Begins backspace input) := by
  by_cases hstray : Stray backspace
  · by_cases hbegins : Begins backspace input
    · exact .inl ⟨hstray, hbegins⟩
    · exact .inr fun _ => hbegins
  · refine .inr fun hle => h ?_
    unfold Stray at hstray
    omega

theorem decodeOne_erased (hneutral : neutral.toNat ≤ 0x7e) {event : KeyEvent} {used : Nat}
    (hkey : decodeOne neutral atEnd input = .key event used)
    (h : (0xc0 ≤ backspace.toNat ∧ backspace.toNat ≤ 0xf7) → ¬Begins backspace (input.take used)) :
    ∃ event', decodeOne backspace atEnd input = .key event' used ∧
      Segment.erased backspace ⟨input.take used, event, false⟩ =
        ⟨input.take used, event', false⟩ := by
  have hinput : (0xc0 ≤ backspace.toNat ∧ backspace.toNat ≤ 0xf7) → ¬Begins backspace input :=
    fun hlead hbegins => h hlead (hbegins.take (by omega) hkey)
  rcases begins_or_not backspace input hinput with ⟨hstray, hbegins⟩ | hnot
  · obtain ⟨code, event', hcode, hneutralKey, hbackspaceKey, herased⟩ :=
      hbegins.of_stray hneutral hstray atEnd
    rw [hkey] at hneutralKey
    cases hneutralKey
    rw [← List.prefix_iff_eq_take.1 hcode]
    exact ⟨event', hbackspaceKey, herased⟩
  · refine ⟨event, (decodeOne_congr hneutral hnot).trans hkey, Segment.erased_of_not_begins ?_⟩
    exact fun hle hbegins => hnot hle (hbegins.of_prefix (List.take_prefix used input))

theorem decodeOne_undecided (hneutral : neutral.toNat ≤ 0x7e)
    (hincomplete : decodeOne neutral atEnd input = .incomplete)
    (h : (0xc0 ≤ backspace.toNat ∧ backspace.toNat ≤ 0xf7) → ¬Begins backspace input) :
    decodeOne backspace atEnd input = .incomplete ∧
      (0x7f ≤ backspace.toNat → ¬Begins backspace input) := by
  rcases begins_or_not backspace input h with ⟨hstray, hbegins⟩ | hnot
  · obtain ⟨_, _, _, hkey, _⟩ := hbegins.of_stray hneutral hstray atEnd
    rw [hincomplete] at hkey
    cases hkey
  · exact ⟨(decodeOne_congr hneutral hnot).trans hincomplete, hnot⟩

/-! ## All keys -/

theorem Avoids.of_append {segments others : List Segment} {tail : Bytes}
    (h : Avoids backspace (segments ++ others) tail) : Avoids backspace others tail :=
  fun hlead => ⟨fun segment hmem => (h hlead).1 segment (List.mem_append_right _ hmem),
    (h hlead).2⟩

theorem scan_erased (hneutral : neutral.toNat ≤ 0x7e)
    (h : Avoids backspace (scan neutral atEnd input).1 (scan neutral atEnd input).2) :
    scan backspace atEnd input =
      ((scan neutral atEnd input).1.map (Segment.erased backspace),
        (scan neutral atEnd input).2) := by
  induction input using scan.induct neutral atEnd with
  | case1 =>
      rw [scan_nil, scan_nil]
      rfl
  | case2 input _ event used hkey _ _ _ ih =>
      rw [scan_of_key hkey] at h ⊢
      have hlater : Avoids backspace ([_] ++ _) _ := h
      have hrest := ih hlater.of_append
      obtain ⟨event', hkey', herased⟩ := decodeOne_erased hneutral hkey
        fun hlead => (h hlead).1 _ List.mem_cons_self
      rw [scan_of_key hkey', hrest, List.map_cons, herased]
  | case3 input hne hincomplete hend =>
      subst hend
      rw [scan_atEnd_of_incomplete hne hincomplete] at h ⊢
      obtain ⟨hundecided, hnot⟩ := decodeOne_undecided hneutral hincomplete
        fun hlead => (h hlead).1 _ List.mem_cons_self
      rw [scan_atEnd_of_incomplete hne hundecided, List.map_singleton,
        Segment.erased_of_not_begins hnot]
  | case4 input _ hincomplete hend =>
      obtain rfl : atEnd = false := by simpa using hend
      rw [scan_of_incomplete hincomplete] at h ⊢
      obtain ⟨hundecided, _⟩ := decodeOne_undecided hneutral hincomplete fun hlead => (h hlead).2
      rw [scan_of_incomplete hundecided]
      rfl

/-- What the input begins with, the first segment or the tail begins with. -/
theorem Avoids.not_begins
    (h : Avoids backspace (scan neutral atEnd input).1 (scan neutral atEnd input).2)
    (hlead : 0xc0 ≤ backspace.toNat ∧ backspace.toNat ≤ 0xf7) : ¬Begins backspace input := by
  intro hbegins
  obtain ⟨hsegments, htail⟩ := h hlead
  cases hstep : decodeOne neutral atEnd input with
  | key event used =>
      rw [scan_of_key hstep] at hsegments
      exact hsegments _ List.mem_cons_self (hbegins.take (by omega) hstep)
  | incomplete =>
      cases atEnd with
      | false =>
          rw [scan_of_incomplete hstep] at htail
          exact htail hbegins
      | true =>
          have hne : input ≠ [] := by
            rintro rfl
            rcases hbegins with hnil | hnil <;> exact absurd hnil (by simp)
          rw [scan_atEnd_of_incomplete hne hstep] at hsegments
          exact hsegments _ List.mem_cons_self hbegins

/-! ## Runs -/

/-- Bytes held back that begin with a byte become a segment or a tail that does. -/
theorem Avoids.pending {d : Decoder} {calls : List Call}
    (h : Avoids backspace (d.run calls).1 (d.run calls).2.pending)
    (hlead : 0xc0 ≤ backspace.toNat ∧ backspace.toNat ≤ 0xf7) : ¬Begins backspace d.pending := by
  induction calls generalizing d with
  | nil => exact (h hlead).2
  | cons call calls ih =>
      rw [run_cons] at h
      have hnext := ih h.of_append
      have hone : Avoids backspace (d.answer call).1 (d.answer call).2.pending := fun _ =>
        ⟨fun segment hmem => (h hlead).1 segment (List.mem_append_left _ hmem), hnext⟩
      intro hbegins
      cases call with
      | feed bytes =>
          exact Avoids.not_begins hone hlead (hbegins.of_prefix (List.prefix_append _ _))
      | flush => exact Avoids.not_begins hone hlead hbegins

theorem answer_erased {d : Decoder} (hneutral : d.backspace.toNat ≤ 0x7e) (call : Call)
    (h : Avoids backspace (d.answer call).1 (d.answer call).2.pending) :
    (Decoder.mk backspace d.pending).answer call =
      ((d.answer call).1.map (Segment.erased backspace),
        ⟨backspace, (d.answer call).2.pending⟩) := by
  cases call <;>
    exact congrArg (fun scanned => (scanned.1, Decoder.mk backspace scanned.2))
      (scan_erased hneutral h)

theorem run_erased {d : Decoder} (hneutral : d.backspace.toNat ≤ 0x7e) {calls : List Call}
    (h : Avoids backspace (d.run calls).1 (d.run calls).2.pending) :
    (Decoder.mk backspace d.pending).run calls =
      ((d.run calls).1.map (Segment.erased backspace), ⟨backspace, (d.run calls).2.pending⟩) := by
  induction calls generalizing d with
  | nil => rfl
  | cons call calls ih =>
      rw [run_cons] at h
      have hone : Avoids backspace (d.answer call).1 (d.answer call).2.pending := fun hlead =>
        ⟨fun segment hmem => (h hlead).1 segment (List.mem_append_left _ hmem),
          h.of_append.pending hlead⟩
      have hrest := ih (d := (d.answer call).2) (by rwa [answer_backspace]) h.of_append
      rw [run_cons, run_cons, answer_erased hneutral call hone, hrest, List.map_append]

/-- An invalid segment of a run is that of a stray byte, or with an escape in front of it. -/
theorem Provenance.invalid_of_stray (hneutral : neutral.toNat ≤ 0x7e) (hstray : Stray b)
    {segment : Segment} (h : Provenance neutral segment)
    (hbytes : segment.bytes = [b] ∨ segment.bytes = [0x1b, b]) : segment.event = .invalid := by
  have hbegins : Begins b segment.bytes := by
    rcases hbytes with hsame | hsame <;> rw [hsame]
    · exact .inl (List.prefix_refl _)
    · exact .inr (List.prefix_refl _)
  obtain ⟨code, _, _, hkey, _⟩ := hbegins.of_stray hneutral hstray false
  cases h with
  | fed hcomplete =>
      rw [complete_iff.1 hcomplete] at hkey
      injection hkey
  | flushed hheld _ =>
      rw [hheld.incomplete] at hkey
      cases hkey

/-- Erase characters below DEL make no difference to a run. With a stray byte as the erase
character, a run has the same segments and holds the same bytes back; its events differ where a
segment is that byte, or an escape and that byte: they are the erase key there, and invalid input
with any erase character below DEL. With a lead byte, a run is the same if no segment of it, and
not the bytes that it holds back, begin with that byte. -/
theorem run_of_backspace (neutral : UInt8) (hneutral : neutral.toNat ≤ 0x7e) (calls : List Call) :
    let run := fun backspace => ((new backspace).run calls).1
    let pending := fun backspace => ((new backspace).run calls).2.pending
    (∀ backspace : UInt8, backspace.toNat ≤ 0x7e →
      run backspace = run neutral ∧ pending backspace = pending neutral) ∧
    (∀ backspace, Stray backspace →
      run backspace = (run neutral).map (Segment.erased backspace) ∧
        pending backspace = pending neutral ∧
        ∀ segment ∈ run neutral, segment.bytes = [backspace] ∨ segment.bytes = [0x1b, backspace] →
          segment.event = .invalid) ∧
    (∀ backspace : UInt8, 0xc0 ≤ backspace.toNat → backspace.toNat ≤ 0xf7 →
      (∀ segment ∈ run neutral, ¬Begins backspace segment.bytes) →
      ¬Begins backspace (pending neutral) →
      run backspace = run neutral ∧ pending backspace = pending neutral) := by
  intro run pending
  have hmap : ∀ backspace, Avoids backspace (run neutral) (pending neutral) →
      run backspace = (run neutral).map (Segment.erased backspace) ∧
        pending backspace = pending neutral := by
    intro backspace havoids
    have hrun : (new backspace).run calls = _ := run_erased (d := new neutral) hneutral havoids
    exact ⟨congrArg Prod.fst hrun, congrArg (fun ran => ran.2.pending) hrun⟩
  refine ⟨?_, ?_, ?_⟩
  · intro backspace hback
    obtain ⟨hrun, hpending⟩ := hmap backspace fun hlead => by omega
    refine ⟨hrun.trans (List.map_id'' (fun segment => ?_) _), hpending⟩
    exact Segment.erased_of_not_begins fun hle => by omega
  · intro backspace hstray
    obtain ⟨hrun, hpending⟩ := hmap backspace fun hlead => absurd hlead hstray.not_lead
    refine ⟨hrun, hpending, fun segment hmem hbytes => ?_⟩
    exact (provenance_run neutral calls segment hmem).invalid_of_stray hneutral hstray hbytes
  · intro backspace hge hle hsegments htail
    obtain ⟨hrun, hpending⟩ := hmap backspace fun _ => ⟨hsegments, htail⟩
    refine ⟨hrun.trans ?_, hpending⟩
    rw [List.map_congr_left fun segment hmem =>
      Segment.erased_of_not_begins fun _ => hsegments segment hmem]
    exact List.map_id _

/-- A continuation byte as the erase character: in a character it changes nothing. -/
theorem run_of_continuation_byte :
    (0x08 : UInt8).toNat ≤ 0x7e ∧ Stray 0x82 ∧
      ((new 0x82).run [.feed [0xe2, 0x82, 0xac, 0x82, 0x1b], .feed [0x82, 0xe2], .flush]).1 =
        [⟨[0xe2, 0x82, 0xac], .character '€', false⟩, ⟨[0x82], .function .backspace, false⟩,
          ⟨[0x1b, 0x82], .press (.function .backspace) .onlyAlt, false⟩,
          ⟨[0xe2], .invalid, true⟩] := by
  have hstray : Stray 0x82 := .inl ⟨by decide, by decide⟩
  obtain ⟨_, hstrays, _⟩ := run_of_backspace 0x08 (by decide)
    [.feed [0xe2, 0x82, 0xac, 0x82, 0x1b], .feed [0x82, 0xe2], .flush]
  refine ⟨by decide, hstray, (hstrays 0x82 hstray).1.trans ?_⟩
  decide +kernel

end Keystroke.Decoder
