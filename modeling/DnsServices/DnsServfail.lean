import DnsServices.DnsMessage

namespace DnsServices.Dns

/-!
# SERVFAIL answers

`build_servfail` walks the labels of the question and echoes what it has
walked over.  A complete question comes back byte for byte; when the walk
fails, only the header comes back, with the count of the question it no longer
has.
-/

/-! ## The label walk -/

/-- Every label takes at least one byte. -/
theorem length_le_labelsWire (labels : List Label) :
    labels.length ≤ (labelsWire labels).length := by
  induction labels with
  | nil =>
      exact Nat.le_refl 0
  | cons label labels inductionHypothesis =>
      rw [labelsWire, List.flatMap_cons, ← labelsWire]
      simp only [List.length_append, List.length_cons, Label.wire]
      omega

/-- The top two bits of a length byte are clear up to 63. -/
theorem and_topBits_eq_zero_iff (byte : UInt8) :
    byte &&& 0xC0 = 0 ↔ byte.toNat ≤ 63 := by
  revert byte
  exact forall_byte (by decide +kernel)

/-- One pass of the walk over a label. -/
theorem questionEndFrom_label
    (front rest : Bytes)
    (label : Label)
    (fuel : Nat) :
    questionEndFrom (front ++ (label.wire ++ rest)) (fuel + 1) front.length =
      questionEndFrom (front ++ label.wire ++ rest) fuel
        (front ++ label.wire).length := by
  have lengthByte :
      (UInt8.ofNat label.bytes.length).toNat = label.bytes.length := by
    have := label.short
    rw [UInt8.toNat_ofNat']
    omega
  have read :
      (front ++ (label.wire ++ rest))[front.length]? =
        some (UInt8.ofNat label.bytes.length) := by
    simp [Label.wire]
  have notRoot : UInt8.ofNat label.bytes.length ≠ 0 := by
    intro zero
    have := label.nonempty
    have := congrArg UInt8.toNat zero
    rw [lengthByte, UInt8.toNat_zero] at this
    omega
  have plain : ¬ UInt8.ofNat label.bytes.length &&& 0xC0 ≠ 0 := by
    rw [not_not, and_topBits_eq_zero_iff, lengthByte]
    exact label.short
  have inside :
      ¬ front.length + 1 + label.bytes.length >
        (front ++ (label.wire ++ rest)).length := by
    simp only [Label.wire, List.length_append, List.length_cons]
    omega
  rw [questionEndFrom, read]
  simp only [if_neg notRoot, if_neg plain, lengthByte, if_neg inside]
  rw [List.append_assoc]
  congr 1
  simp only [Label.wire, List.length_append, List.length_cons]
  omega

/-- The walk ends behind type and class of an uncompressed name. -/
theorem questionEndFrom_labels
    (front rest : Bytes)
    (labels : List Label)
    {fuel : Nat}
    (enough : labels.length < fuel) :
    questionEndFrom (front ++ (labelsWire labels ++ 0x00 :: rest)) fuel
        front.length =
      .ok (front.length + (labelsWire labels).length + 5) := by
  induction labels generalizing front fuel with
  | nil =>
      obtain ⟨fuel, rfl⟩ : ∃ n, fuel = n + 1 := ⟨fuel - 1, by omega⟩
      simp [questionEndFrom, labelsWire]
  | cons label labels inductionHypothesis =>
      rw [List.length_cons] at enough
      obtain ⟨fuel, rfl⟩ : ∃ n, fuel = n + 1 := ⟨fuel - 1, by omega⟩
      have walked := inductionHypothesis (front ++ label.wire)
        (Nat.lt_of_succ_lt_succ enough)
      rw [labelsWire, List.flatMap_cons, ← labelsWire, List.append_assoc,
        questionEndFrom_label, walked]
      simp only [List.length_append, Nat.add_assoc]

/-- A plain length byte with as many bytes behind it is a label. -/
theorem exists_label
    {buf : Bytes}
    {pos : Nat}
    {len : UInt8}
    (first : buf.drop pos = len :: buf.drop (pos + 1))
    (notRoot : len ≠ 0)
    (short : len.toNat ≤ 63)
    (fits : pos + 1 + len.toNat ≤ buf.length) :
    ∃ label : Label,
      buf.drop pos = label.wire ++ buf.drop (pos + 1 + len.toNat) ∧
        label.wire.length = 1 + len.toNat := by
  have positive : 1 ≤ len.toNat := by
    rcases Nat.eq_zero_or_pos len.toNat with zero | positive
    · exact absurd (UInt8.toNat_inj.mp zero) notRoot
    · exact positive
  have size : ((buf.drop (pos + 1)).take len.toNat).length = len.toNat := by
    rw [List.length_take, List.length_drop]
    omega
  have parts := List.take_append_drop len.toNat (buf.drop (pos + 1))
  rw [List.drop_drop] at parts
  refine
    ⟨⟨(buf.drop (pos + 1)).take len.toNat, by omega, by omega⟩, ?_, ?_⟩
  · simp only [Label.wire, size, UInt8.ofNat_toNat, List.cons_append]
    rw [parts, first]
  · simp only [Label.wire, List.length_cons, size]
    omega

/-- Whatever the walk accepts is labels and a root label. -/
theorem labels_of_questionEndFrom
    {buf : Bytes}
    {fuel pos last : Nat}
    (found : questionEndFrom buf fuel pos = .ok last) :
    ∃ labels,
      buf.drop pos = labelsWire labels ++ 0x00 :: buf.drop (last - 4) ∧
        last = pos + (labelsWire labels).length + 5 := by
  induction fuel generalizing pos with
  | zero =>
      cases found
  | succ fuel inductionHypothesis =>
      rw [questionEndFrom] at found
      split at found
      · cases found
      next len read =>
        obtain ⟨inside, isLen⟩ := List.getElem?_eq_some_iff.mp read
        have first : buf.drop pos = len :: buf.drop (pos + 1) := by
          rw [← isLen]
          exact List.drop_eq_getElem_cons inside
        split at found
        next root =>
          obtain rfl := Except.ok.inj found
          refine ⟨[], ?_, rfl⟩
          rw [first, root]
          rfl
        next notRoot =>
          split at found
          · cases found
          next plain =>
            simp only at found
            split at found
            · cases found
            next fits =>
              obtain ⟨label, walked, size⟩ :=
                exists_label first notRoot
                  ((and_topBits_eq_zero_iff len).mp (not_not.mp plain))
                  (Nat.not_lt.mp fits)
              obtain ⟨labels, rest, ended⟩ := inductionHypothesis found
              refine ⟨label :: labels, ?_, ?_⟩
              · rw [labelsWire, List.flatMap_cons, ← labelsWire,
                  List.append_assoc, ← rest, walked]
              · rw [labelsWire, List.flatMap_cons, ← labelsWire,
                  List.length_append, size, ended]
                omega

/-- A question in front of any bytes is found with its end. -/
theorem questionEnd_question
    (header : Bytes)
    (question : Question)
    (trailing : Bytes)
    (size : header.length = minDnsLen) :
    questionEnd (header ++ question.wire ++ trailing) =
      .ok (minDnsLen + question.wire.length) := by
  have enough :
      question.labels.length <
        (header ++ question.wire ++ trailing).length + 1 := by
    have counted : question.labels.length ≤ question.wire.length := by
      rw [Question.wire]
      simp only [List.length_append]
      have := length_le_labelsWire question.labels
      omega
    simp only [List.length_append]
    omega
  have walked :=
    questionEndFrom_labels header
      (u16Wire question.qtype ++ u16Wire question.qclass ++ trailing)
      question.labels enough
  have wire :
      header ++ question.wire ++ trailing =
        header ++ (labelsWire question.labels ++ 0x00 ::
          (u16Wire question.qtype ++ u16Wire question.qclass ++
            trailing)) := by
    simp only [Question.wire, List.append_assoc, List.cons_append,
      List.nil_append]
  rw [questionEnd, ← size]
  rw [← wire] at walked
  rw [walked]
  simp only [Question.wire, List.length_append, length_u16Wire,
    List.length_cons, List.length_nil, Nat.add_assoc]

/-- An end inside the buffer has a question before it. -/
theorem question_of_questionEnd
    {buf : Bytes}
    {last : Nat}
    (found : questionEnd buf = .ok last)
    (inside : last ≤ buf.length) :
    ∃ question : Question,
      buf.drop minDnsLen = question.wire ++ buf.drop last ∧
        last = minDnsLen + question.wire.length := by
  obtain ⟨labels, walked, ended⟩ := labels_of_questionEndFrom found
  have four : (buf.drop (last - 4)).length = 4 + (buf.length - last) := by
    rw [List.length_drop]
    omega
  have rest : buf.drop last = (buf.drop (last - 4)).drop 4 := by
    rw [List.drop_drop]
    congr 1
    omega
  generalize buf.drop (last - 4) = behind at four rest walked
  obtain _ | ⟨a, _ | ⟨b, _ | ⟨c, _ | ⟨d, behind⟩⟩⟩⟩ := behind
  case cons.cons.cons.cons =>
    obtain ⟨qtype, isType⟩ := exists_u16Wire a b
    obtain ⟨qclass, isClass⟩ := exists_u16Wire c d
    refine ⟨⟨labels, qtype, qclass⟩, ?_, ?_⟩
    · rw [walked, rest]
      simp [Question.wire, isType, isClass]
    · rw [ended]
      simp only [Question.wire, List.length_append, length_u16Wire,
        List.length_cons, List.length_nil, Nat.add_assoc]
  all_goals
    simp only [List.length_cons, List.length_nil] at four
    omega

namespace Machine

/-- The label loop when running out of passes is a fault. -/
def questionEndFrom (buf : Bytes) : Nat → Nat → Option (Except DnsError Nat)
  | 0, _ =>
      none
  | passes + 1, pos =>
      match buf[pos]? with
      | none =>
          some (.error .malformedQuestion)
      | some len =>
          if len = 0 then
            some (.ok (pos + 1 + 4))
          else if len &&& 0xC0 ≠ 0 then
            some (.error .malformedQuestion)
          else
            let pos := pos + 1 + len.toNat
            if pos > buf.length then
              some (.error .malformedQuestion)
            else
              questionEndFrom buf passes pos

/-- The end of the question that follows the header. -/
def questionEnd (buf : Bytes) : Option (Except DnsError Nat) :=
  questionEndFrom buf (buf.length + 1) minDnsLen

/-- Every pass moves on, so as many passes as bytes are enough. -/
theorem questionEndFrom_eq
    {buf : Bytes}
    {passes pos : Nat}
    (positive : 0 < passes)
    (enough : buf.length < pos + passes) :
    questionEndFrom buf passes pos =
      some (Dns.questionEndFrom buf passes pos) := by
  induction passes generalizing pos with
  | zero =>
      exact absurd positive (Nat.lt_irrefl 0)
  | succ passes inductionHypothesis =>
      rw [questionEndFrom, Dns.questionEndFrom]
      cases buf[pos]? with
      | none =>
          rfl
      | some len =>
          simp only
          by_cases root : len = 0
          · rw [if_pos root, if_pos root]
          · rw [if_neg root, if_neg root]
            by_cases pointer : len &&& 0xC0 ≠ 0
            · rw [if_pos pointer, if_pos pointer]
            · rw [if_neg pointer, if_neg pointer]
              by_cases outside : pos + 1 + len.toNat > buf.length
              · rw [if_pos outside, if_pos outside]
              · rw [if_neg outside, if_neg outside]
                exact inductionHypothesis (by omega) (by omega)

/-- The walk ends on every buffer. -/
theorem questionEnd_eq (buf : Bytes) :
    questionEnd buf = some (Dns.questionEnd buf) :=
  questionEndFrom_eq (by omega) (by omega)

end Machine

/-! ## The answer -/

/-- What a SERVFAIL keeps and sets in the header of a query. -/
structure IsServfailHeader (header answer : Bytes) : Prop where
  size : answer.length = minDnsLen
  id : answer.take 2 = header.take 2
  opcode : answer.getD 2 0 &&& 0x7F = header.getD 2 0 &&& 0x7F
  qr : answer.getD 2 0 &&& 0x80 = 0x80
  kept : answer.getD 3 0 &&& 0x70 = header.getD 3 0 &&& 0x70
  ra : answer.getD 3 0 &&& 0x80 = 0x80
  rcode : answer.getD 3 0 &&& 0x0F = 2
  qdcount : (answer.drop 4).take 2 = (header.drop 4).take 2
  counts : answer.drop 6 = List.replicate 6 0

/-- The first flag byte keeps everything but the QR bit, which is set. -/
theorem servfail_highFlags (byte : UInt8) :
    (byte ||| 0x80) &&& 0x7F = byte &&& 0x7F ∧
      (byte ||| 0x80) &&& 0x80 = 0x80 := by
  revert byte
  exact forall_byte (by decide +kernel)

/-- The second flag byte keeps its reserved bits, sets RA and ends in SERVFAIL.
-/
theorem servfail_lowFlags (byte : UInt8) :
    ((byte &&& 0x70) ||| 0x80 ||| 0x02) &&& 0x70 = byte &&& 0x70 ∧
      ((byte &&& 0x70) ||| 0x80 ||| 0x02) &&& 0x80 = 0x80 ∧
      ((byte &&& 0x70) ||| 0x80 ||| 0x02) &&& 0x0F = 2 := by
  revert byte
  exact forall_byte (by decide +kernel)

/-- A SERVFAIL is the rewritten header and whatever was echoed behind it. -/
theorem exists_buildServfail
    {query : Bytes}
    {last : Nat}
    (found : servfailEnd query = some last) :
    ∃ answer,
      IsServfailHeader (query.take minDnsLen) answer ∧
        buildServfail query =
          some (answer ++ (query.take last).drop minDnsLen) := by
  obtain ⟨behind, long⟩ := le_of_servfailEnd found
  rw [minDnsLen] at behind long
  rw [buildServfail, found]
  obtain ⟨n, rfl⟩ : ∃ n, last = n + 12 := ⟨last - 12, by omega⟩
  obtain _ | ⟨a, _ | ⟨b, _ | ⟨c, _ | ⟨d, rest⟩⟩⟩⟩ := query
  case cons.cons.cons.cons =>
    obtain ⟨opcode, qr⟩ := servfail_highFlags c
    obtain ⟨kept, ra, rcode⟩ := servfail_lowFlags d
    have counted : 8 ≤ rest.length := by
      simp only [List.length_cons] at long
      omega
    have two : (rest.take 2).length = 2 := by
      rw [List.length_take]
      omega
    refine
      ⟨a :: b :: (c ||| 0x80) :: ((d &&& 0x70) ||| 0x80 ||| 0x02) ::
          (rest.take 2 ++ List.replicate 6 0),
        ?_, ?_⟩
    · exact
        { size := by simp [two, minDnsLen]
          id := rfl
          opcode := opcode
          qr := qr
          kept := kept
          ra := ra
          rcode := rcode
          qdcount := by simp [minDnsLen, two, List.take_take]
          counts := by simp [two] }
    · simp [minDnsLen, List.take_take]
  all_goals
    simp at long

/-- The whole question is echoed if there is one. -/
theorem servfailEnd_question
    (header : Bytes)
    (question : Question)
    (trailing : Bytes)
    (size : header.length = minDnsLen) :
    servfailEnd (header ++ question.wire ++ trailing) =
      some (minDnsLen + question.wire.length) := by
  rw [servfailEnd, questionEnd_question header question trailing size]
  simp only
  rw [if_pos (by simp only [List.length_append]; omega)]

/-- Only the header is echoed if there is no complete question. -/
theorem servfailEnd_noQuestion
    {query : Bytes}
    (long : minDnsLen ≤ query.length)
    (malformed :
      ∀ question : Question, ¬ question.wire <+: query.drop minDnsLen) :
    servfailEnd query = some minDnsLen := by
  rw [servfailEnd]
  split
  next last found =>
    split
    next inside =>
      obtain ⟨question, split, -⟩ := question_of_questionEnd found inside
      exact absurd ⟨_, split.symm⟩ (malformed question)
    · rw [if_neg (Nat.not_lt.mpr long)]
  · rw [if_neg (Nat.not_lt.mpr long)]

/--
A SERVFAIL for a header, a question and any further bytes is the rewritten
header and the question; an end found inside the buffer is the end of a
question; and the walk for it ends on every buffer.
-/
theorem servfail_echoes_question :
    (∀ header question trailing,
        header.length = minDnsLen →
        ∃ answer,
          IsServfailHeader header answer ∧
            buildServfail (header ++ Question.wire question ++ trailing) =
              some (answer ++ question.wire)) ∧
      (∀ buf last,
        questionEnd buf = .ok last →
        last ≤ buf.length →
        ∃ question : Question, (buf.take last).drop minDnsLen = question.wire) ∧
      ∀ buf, Machine.questionEnd buf = some (questionEnd buf) := by
  refine ⟨?_, ?_, Machine.questionEnd_eq⟩
  · intro header question trailing size
    obtain ⟨answer, rewritten, built⟩ :=
      exists_buildServfail (servfailEnd_question header question trailing size)
    refine ⟨answer, ?_, ?_⟩
    · rwa [List.append_assoc, ← size, List.take_left] at rewritten
    · rw [built, ← size, ← List.length_append, List.take_left, List.drop_left]
  · intro buf last found inside
    obtain ⟨question, split, ended⟩ := question_of_questionEnd found inside
    refine ⟨question, ?_⟩
    rw [List.drop_take, split, ended, Nat.add_sub_cancel_left, List.take_left]

/-! ## Header and contents -/

/-- A header, as many questions as it counts, and nothing else. -/
def SelfConsistent (out : Bytes) : Prop :=
  ∃ (header : Bytes) (questions : List Question),
    out = header ++ questions.flatMap Question.wire ∧
      header.length = minDnsLen ∧
      questions.length = u16At header 4 ∧
      header.drop 6 = List.replicate 6 0

/-- A header that counts a question is not consistent on its own. -/
theorem not_selfConsistent_header
    {out : Bytes}
    (size : out.length = minDnsLen)
    (counted : u16At out 4 = 1) :
    ¬ SelfConsistent out := by
  rintro ⟨header, questions, rfl, headerSize, agrees, -⟩
  have empty : questions.flatMap Question.wire = [] := by
    rw [List.length_append, headerSize] at size
    exact List.eq_nil_of_length_eq_zero (by omega)
  rw [empty, List.append_nil] at counted
  rw [counted] at agrees
  obtain ⟨question, rfl⟩ := List.length_eq_one_iff.mp agrees
  simp [Question.wire] at empty

/-- A 16-bit read depends on its two bytes only. -/
theorem u16At_of_take_eq
    {first second : Bytes}
    {offset : Nat}
    (same : (first.drop offset).take 2 = (second.drop offset).take 2) :
    u16At first offset = u16At second offset := by
  have byte (i : Nat) (inside : i < 2) :
      first.getD (offset + i) 0 = second.getD (offset + i) 0 := by
    have entry := congrArg (·[i]?) same
    simp only [List.getElem?_take, inside, if_true, List.getElem?_drop]
      at entry
    rw [List.getD_eq_getElem?_getD, List.getD_eq_getElem?_getD, entry]
  rw [u16At, u16At, byte 1 (by omega)]
  have zero := byte 0 (by omega)
  rw [Nat.add_zero] at zero
  rw [zero]

/-- A validated query counts one question. -/
theorem qdcount_of_validateQuery
    {query : Bytes}
    (valid : validateQuery query = .ok ()) :
    u16At query 4 = 1 := by
  unfold validateQuery at valid
  split at valid
  · cases valid
  · split at valid
    · cases valid
    · simp only at valid
      split at valid
      · cases valid
      · split at valid
        · cases valid
        · omega

/-- The answer to a validated query counts one question too. -/
theorem IsServfailHeader.qdcount_eq_one
    {query answer : Bytes}
    (rewritten : IsServfailHeader (query.take minDnsLen) answer)
    (valid : validateQuery query = .ok ()) :
    u16At answer 4 = 1 := by
  have same := rewritten.qdcount
  rw [List.drop_take, List.take_take, minDnsLen, Nat.min_eq_left (by omega)]
    at same
  rw [u16At_of_take_eq same]
  exact qdcount_of_validateQuery valid

/--
The SERVFAIL for a validated query is consistent exactly if a complete
uncompressed question stands behind the header of the query.
-/
theorem servfail_selfConsistent_iff
    (query : Bytes)
    (valid : validateQuery query = .ok ()) :
    (∃ out, buildServfail query = some out ∧ SelfConsistent out) ↔
      ∃ question : Question, question.wire <+: query.drop minDnsLen := by
  have long := length_of_validateQuery valid
  constructor
  · rintro ⟨out, built, consistent⟩
    by_contra malformed
    obtain ⟨answer, rewritten, answered⟩ :=
      exists_buildServfail
        (servfailEnd_noQuestion long (not_exists.mp malformed))
    rw [answered, List.drop_take, Nat.sub_self, List.take_zero,
      List.append_nil] at built
    obtain rfl := Option.some.inj built
    exact not_selfConsistent_header rewritten.size
      (rewritten.qdcount_eq_one valid) consistent
  · rintro ⟨question, trailing, split⟩
    have whole :
        query = query.take minDnsLen ++ question.wire ++ trailing := by
      rw [List.append_assoc, split, List.take_append_drop]
    have size : (query.take minDnsLen).length = minDnsLen := by
      rw [List.length_take]
      omega
    have found :=
      servfailEnd_question (query.take minDnsLen) question trailing size
    rw [← whole] at found
    obtain ⟨answer, rewritten, built⟩ := exists_buildServfail found
    refine ⟨_, built, answer, [question], ?_, rewritten.size, ?_,
      rewritten.counts⟩
    · rw [List.drop_take, Nat.add_sub_cancel_left, ← split, List.take_left,
        List.flatMap_singleton]
    · exact (rewritten.qdcount_eq_one valid).symm

/-- A query for the root name. -/
theorem servfail_selfConsistent_rootQuery :
    (∃ out, buildServfail [0x12, 0x34, 1, 0, 0, 1, 0, 0, 0, 0, 0, 0,
          0, 0, 2, 0, 1] = some out ∧
        SelfConsistent out) ↔
      ∃ question : Question,
        question.wire <+:
          List.drop minDnsLen
            [0x12, 0x34, 1, 0, 0, 1, 0, 0, 0, 0, 0, 0, 0, 0, 2, 0, 1] :=
  servfail_selfConsistent_iff _ (by decide)

/-- A header that promises a question behind which nothing stands. -/
def bareHeader : Bytes :=
  [0x12, 0x34, 1, 0, 0, 1, 0, 0, 0, 0, 0, 0]

/-- A bare header keeps its question count of one in the reply. -/
theorem not_selfConsistent_bareHeader :
    ¬ ∀ query,
      validateQuery query = .ok () →
      ∃ out, buildServfail query = some out ∧ SelfConsistent out := by
  intro always
  obtain ⟨out, built, consistent⟩ := always bareHeader (by decide)
  have answered :
      buildServfail bareHeader =
        some [0x12, 0x34, 0x81, 0x82, 0, 1, 0, 0, 0, 0, 0, 0] := by
    decide
  rw [answered] at built
  obtain rfl := Option.some.inj built
  exact not_selfConsistent_header rfl rfl consistent

end DnsServices.Dns
