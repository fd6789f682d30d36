import Keystroke.Proofs.ControlSequence.Event
import Keystroke.Proofs.ControlSequence.Parameters

/-! # The grammar of control sequences

What follows the introducer is an optional private marker, a run of acceptable
parameter bytes, intermediate bytes and a final byte. Four rules say how it can
go: a parameter byte is refused, the input ends, another byte breaks the
sequence off, or the final byte decides an event. The decoder follows exactly
these rules, with the values that are written in the run.
-/

namespace Keystroke.Decoder.ControlSequence

/-- The marker in front of `rest`, if there is one. -/
def Marked (marker rest : Bytes) : Prop :=
  (∃ b, isMarker b = true ∧ marker = [b]) ∨
    (marker = [] ∧ ∀ b after, rest = b :: after → isMarker b = false)

inductive Decodes : Bytes → Step → Prop
  | refused {marker run after : Bytes} {b : UInt8} :
      Marked marker (run ++ b :: after) → Accepted run →
      isParameterByte b = true → Offends run b →
      Decodes (marker ++ (run ++ b :: after)) (.key .invalid (marker.length + run.length + 1))
  | cutShort {marker run inter : Bytes} :
      Marked marker (run ++ inter) → Accepted run → (∀ c ∈ inter, isIntermediate c = true) →
      Decodes (marker ++ (run ++ inter)) .incomplete
  | brokenOff {marker run inter after : Bytes} {b : UInt8} :
      Marked marker (run ++ (inter ++ b :: after)) → Accepted run →
      (∀ c ∈ inter, isIntermediate c = true) →
      (inter = [] → isParameterByte b = false) → isIntermediate b = false → isFinal b = false →
      Decodes (marker ++ (run ++ (inter ++ b :: after)))
        (.key .invalid (marker.length + run.length + inter.length + 1))
  | final {marker run inter after : Bytes} {b : UInt8} {p : Parameters} :
      Marked marker (run ++ (inter ++ b :: after)) → Accepted run →
      (∀ c ∈ inter, isIntermediate c = true) → isFinal b = true →
      (∀ i j, p.value i j = min (written run i j) maxValue) →
      Decodes (marker ++ (run ++ (inter ++ b :: after)))
        (.key (event b p) (marker.length + run.length + inter.length + 1))

/-! ## Reading a part -/

theorem readParameters_append {p q : Parameters} {run : Bytes}
    (h : run.foldlM Parameters.push? p = some q) (used : Nat) (rest : Bytes) :
    readParameters p used (run ++ rest) = readParameters q (used + run.length) rest := by
  induction run generalizing p used with
  | nil =>
      cases h
      rfl
  | cons b run ih =>
      rw [List.foldlM_cons] at h
      cases hpush : p.push? b with
      | none =>
          rw [hpush] at h
          cases h
      | some r =>
          rw [hpush] at h
          rw [List.cons_append, readParameters, if_pos (isParameterByte_of_push hpush), hpush,
            List.length_cons]
          dsimp only
          rw [ih h, Nat.add_right_comm, Nat.add_assoc]

theorem readParameters_of_refused {p : Parameters} {b : UInt8} (hb : isParameterByte b = true)
    (h : p.push? b = none) (used : Nat) (after : Bytes) :
    readParameters p used (b :: after) = .key .invalid (used + 1) := by
  rw [readParameters, if_pos hb, h]

theorem readParameters_of_end {rest : Bytes}
    (h : ∀ b after, rest = b :: after → isParameterByte b = false) (p : Parameters) (used : Nat) :
    readParameters p used rest = readFinal p used rest := by
  cases rest with
  | nil => rfl
  | cons b after =>
      have hb := h b after rfl
      rw [readParameters, if_neg (by rw [hb]; decide)]

theorem readFinal_append {inter : Bytes} (h : ∀ c ∈ inter, isIntermediate c = true)
    (p : Parameters) (used : Nat) (rest : Bytes) :
    readFinal p used (inter ++ rest) = readFinal p (used + inter.length) rest := by
  induction inter generalizing used with
  | nil => rfl
  | cons b inter ih =>
      have hinter := ih (fun c hc => h c (List.mem_cons_of_mem b hc)) (used + 1)
      rw [List.cons_append, readFinal, if_pos (h b List.mem_cons_self), hinter, List.length_cons,
        Nat.add_right_comm, Nat.add_assoc]

theorem decode_of_marked {marker rest : Bytes} (h : Marked marker rest) :
    decode (marker ++ rest) = readParameters .empty marker.length rest := by
  rcases h with ⟨b, hb, rfl⟩ | ⟨rfl, hrest⟩
  · rw [List.singleton_append, decode, if_pos hb]
    rfl
  · cases rest with
    | nil => rfl
    | cons b after =>
        rw [List.nil_append, decode, if_neg (by rw [hrest b after rfl]; decide)]
        rfl

/-- The marker and the acceptable run are read before anything is decided. -/
theorem decode_of_accepted {marker run rest : Bytes} (hmarked : Marked marker (run ++ rest))
    (hrun : Accepted run) :
    ∃ p : Parameters, p.Describes run ∧
      decode (marker ++ (run ++ rest)) = readParameters p (marker.length + run.length) rest := by
  obtain ⟨p, hfold, hp⟩ := Parameters.describes_empty.foldlM_push hrun
  exact ⟨p, hp, by rw [decode_of_marked hmarked, readParameters_append hfold]⟩

/-! ## Cutting the input up -/

theorem exists_marked (body : Bytes) : ∃ marker rest, body = marker ++ rest ∧ Marked marker rest := by
  cases body with
  | nil => exact ⟨[], [], rfl, .inr ⟨rfl, fun b after h => by cases h⟩⟩
  | cons b after =>
      cases hb : isMarker b with
      | true => exact ⟨[b], after, rfl, .inl ⟨b, hb, rfl⟩⟩
      | false =>
          refine ⟨[], b :: after, rfl, .inr ⟨rfl, ?_⟩⟩
          intro c others h
          cases h
          exact hb

/-- The acceptable run ends before the first byte that offends or is no parameter byte. -/
theorem exists_accepted (start rest : Bytes) :
    ∃ run tail, rest = run ++ tail ∧ AcceptedAfter start run ∧
      ∀ b after, tail = b :: after → isParameterByte b = true → Offends (start ++ run) b := by
  induction rest generalizing start with
  | nil => exact ⟨[], [], rfl, acceptedAfter_nil start, fun b after h => by cases h⟩
  | cons b rest ih =>
      by_cases hb : isParameterByte b = true ∧ ¬ Offends start b
      · obtain ⟨run, tail, hrest, hrun, htail⟩ := ih (start ++ [b])
        refine ⟨b :: run, tail, by rw [hrest]; rfl, acceptedAfter_cons.2 ⟨hb, hrun⟩, ?_⟩
        intro c after h hc
        have hoffends := htail c after h hc
        rwa [List.append_assoc] at hoffends
      · refine ⟨[], b :: rest, rfl, acceptedAfter_nil start, ?_⟩
        intro c after h hc
        cases h
        rw [List.append_nil]
        by_cases hoffends : Offends start b
        · exact hoffends
        · exact absurd ⟨hc, hoffends⟩ hb

theorem exists_intermediates (rest : Bytes) :
    ∃ inter tail, rest = inter ++ tail ∧ (∀ c ∈ inter, isIntermediate c = true) ∧
      ∀ b after, tail = b :: after → isIntermediate b = false := by
  refine ⟨rest.takeWhile isIntermediate, rest.dropWhile isIntermediate,
    List.takeWhile_append_dropWhile.symm, ?_, ?_⟩
  · intro c hc
    exact List.all_eq_true.1 List.all_takeWhile c hc
  · intro b after h
    have hhead := List.head?_dropWhile_not isIntermediate rest
    rw [h] at hhead
    simpa using hhead

theorem isParameterByte_of_isIntermediate {b : UInt8} (h : isIntermediate b = true) :
    isParameterByte b = false := by
  rw [isIntermediate, decide_eq_true_iff] at h
  rw [isParameterByte, decide_eq_false_iff_not]
  omega

theorem not_parameterByte_of_inter {inter after : Bytes} {b : UInt8}
    (hinter : ∀ c ∈ inter, isIntermediate c = true)
    (hb : inter = [] → isParameterByte b = false) :
    ∀ c others, inter ++ b :: after = c :: others → isParameterByte c = false := by
  intro c others h
  cases inter with
  | nil =>
      cases h
      exact hb rfl
  | cons d inter =>
      cases h
      exact isParameterByte_of_isIntermediate (hinter c List.mem_cons_self)

theorem of_isFinal {b : UInt8} (h : isFinal b = true) :
    isParameterByte b = false ∧ isIntermediate b = false := by
  rw [isFinal, decide_eq_true_iff] at h
  rw [isParameterByte, isIntermediate, decide_eq_false_iff_not, decide_eq_false_iff_not]
  omega

/-! ## The decoder and the rules -/

theorem decodes_decode (body : Bytes) : Decodes body (decode body) := by
  obtain ⟨marker, rest, rfl, hmarked⟩ := exists_marked body
  obtain ⟨run, tail, rfl, hrun, htail⟩ := exists_accepted [] rest
  obtain ⟨p, hp, hdecode⟩ := decode_of_accepted hmarked hrun
  rw [hdecode]
  by_cases hrefused : ∃ b after, tail = b :: after ∧ isParameterByte b = true
  · obtain ⟨b, after, rfl, hb⟩ := hrefused
    have hoffends := htail b after rfl hb
    rw [readParameters_of_refused hb ((hp.push_eq_none_iff hb).2 hoffends)]
    exact .refused hmarked hrun hb hoffends
  have hend : ∀ b after, tail = b :: after → isParameterByte b = false := by
    intro b after h
    cases hb : isParameterByte b with
    | true => exact absurd ⟨b, after, h, hb⟩ hrefused
    | false => rfl
  obtain ⟨inter, tail, rfl, hinter, hfinal⟩ := exists_intermediates tail
  rw [readParameters_of_end hend, readFinal_append hinter]
  cases tail with
  | nil =>
      rw [List.append_nil] at hmarked ⊢
      exact .cutShort hmarked hrun hinter
  | cons b after =>
      have hb := hfinal b after rfl
      rw [readFinal, if_neg (by rw [hb]; decide)]
      cases hfin : isFinal b with
      | true => exact .final hmarked hrun hinter hfin hp.value_eq
      | false =>
          refine .brokenOff hmarked hrun hinter ?_ hb hfin
          rintro rfl
          exact hend b after rfl

theorem Decodes.decode_eq {body : Bytes} {step : Step} (h : Decodes body step) :
    decode body = step := by
  cases h with
  | refused hmarked hrun hb hoffends =>
      obtain ⟨p, hp, hdecode⟩ := decode_of_accepted hmarked hrun
      rw [hdecode, readParameters_of_refused hb ((hp.push_eq_none_iff hb).2 hoffends)]
  | @cutShort marker run inter hmarked hrun hinter =>
      obtain ⟨p, hp, hdecode⟩ := decode_of_accepted hmarked hrun
      have hfinal := readFinal_append hinter p (marker.length + run.length) []
      rw [List.append_nil] at hfinal
      rw [hdecode, readParameters_of_end, hfinal]
      · rfl
      · intro b after h
        exact isParameterByte_of_isIntermediate (hinter b (by rw [h]; exact List.mem_cons_self))
  | @brokenOff marker run inter after b hmarked hrun hinter hb hb' hfin =>
      obtain ⟨p, hp, hdecode⟩ := decode_of_accepted hmarked hrun
      rw [hdecode, readParameters_of_end (not_parameterByte_of_inter hinter hb),
        readFinal_append hinter, readFinal, if_neg (by rw [hb']; decide),
        if_neg (by rw [hfin]; decide)]
  | @final marker run inter after b q hmarked hrun hinter hfin hvalue =>
      obtain ⟨p, hp, hdecode⟩ := decode_of_accepted hmarked hrun
      have hb := of_isFinal hfin
      have hsame : event b p = event b q := by
        apply event_congr
        · rw [hp.value_eq, hvalue]
        · rw [hp.value_eq, hvalue]
        · rw [hp.value_eq, hvalue]
      rw [hdecode, readParameters_of_end (not_parameterByte_of_inter hinter fun _ => hb.1),
        readFinal_append hinter, readFinal, if_neg (by rw [hb.2]; decide), if_pos hfin, hsame]

/-- The parameters of a run are read if and only if it is acceptable, and they are the numbers
written in it up to the greatest value. -/
theorem foldlM_push_iff (run : Bytes) :
    Accepted run ↔ ∃ p, run.foldlM Parameters.push? .empty = some p := by
  constructor
  · intro h
    obtain ⟨p, hfold, _⟩ := Parameters.describes_empty.foldlM_push h
    exact ⟨p, hfold⟩
  · rintro ⟨p, hfold⟩
    exact Parameters.describes_empty.accepted hfold

theorem value_of_foldlM_push {run : Bytes} {p : Parameters}
    (h : run.foldlM Parameters.push? .empty = some p) (i j : Nat) :
    p.value i j = min (written run i j) maxValue := by
  obtain ⟨q, hfold, hq⟩ :=
    Parameters.describes_empty.foldlM_push (Parameters.describes_empty.accepted h)
  rw [h] at hfold
  cases hfold
  exact hq.value_eq i j

/-- The decoder decides exactly what the four rules say, on every body, of bytes of the kinds that
the last clause lists. Reading a run succeeds if and only if the run is acceptable, and every value
is then the number written in its place, or the greatest value if that number is greater. The event
looks at the final byte and three of the values only. Its key and the mask of its modifiers are the
ones that the tables give for these: the low four bits of one less than the modifier word, but
nothing for focus and paste reports and for discarded input, and without Shift where an extended
report uses it for a shifted key. -/
theorem decode_eq_iff_decodes :
    (∀ body step, decode body = step ↔ Decodes body step) ∧
    (∀ run, Accepted run ↔ ∃ p, run.foldlM Parameters.push? .empty = some p) ∧
    (∀ run p, run.foldlM Parameters.push? .empty = some p →
      ∀ i j, p.value i j = min (written run i j) 0xffffffff) ∧
    (∀ b (p q : Parameters), p.value 0 0 = q.value 0 0 → p.value 0 1 = q.value 0 1 →
      p.value 1 0 = q.value 1 0 → event b p = event b q) ∧
    (∀ b (p : Parameters) key n, (event b p).key = key ∧ (event b p).modifiers.mask = n ↔
      Reports (p.value 0 0) (p.value 0 1) (p.value 1 0) b key n) ∧
    (∀ b, (isMarker b = true ↔ 0x3c ≤ b.toNat ∧ b.toNat ≤ 0x3f) ∧
      (isParameterByte b = true ↔ 0x30 ≤ b.toNat ∧ b.toNat ≤ 0x3f) ∧
      (isIntermediate b = true ↔ 0x20 ≤ b.toNat ∧ b.toNat ≤ 0x2f) ∧
      (isFinal b = true ↔ 0x40 ≤ b.toNat ∧ b.toNat ≤ 0x7e)) := by
  refine ⟨?_, foldlM_push_iff, ?_, ?_, ?_, ?_⟩
  · intro body step
    constructor
    · rintro rfl
      exact decodes_decode body
    · exact Decodes.decode_eq
  · intro run p h i j
    exact value_of_foldlM_push h i j
  · intro b p q hcode hshifted hword
    exact event_congr hcode hshifted hword b
  · intro b p key n
    exact event_iff_reports
  · intro b
    exact ⟨decide_eq_true_iff, decide_eq_true_iff, decide_eq_true_iff, decide_eq_true_iff⟩

/-- The first byte behind a sixteenth `;` is refused, whatever it is. A report of a letter with Ctrl
held has them both. -/
theorem decode_refused_and_reported :
    Decodes (List.replicate 16 0x3b ++ [0x31, 0x41]) (.key .invalid 17) ∧
      ∃ p : Parameters, [0x39, 0x37, 0x3b, 0x35].foldlM Parameters.push? .empty = some p ∧
        decode [0x39, 0x37, 0x3b, 0x35, 0x75] = .key (event 0x75 p) 5 ∧
        Reports (p.value 0 0) (p.value 0 1) (p.value 1 0) 0x75 (.codepoint 'a') 4 := by
  obtain ⟨hdecodes, _, _, _, hreports, _⟩ := decode_eq_iff_decodes
  exact ⟨(hdecodes _ _).1 (by decide), _, rfl, rfl,
    (hreports _ _ _ _).1 ⟨by decide, by decide⟩⟩

end Keystroke.Decoder.ControlSequence
