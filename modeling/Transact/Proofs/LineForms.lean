/-
# Transact.Proofs.LineForms -- which texts are read as a line

Cutting takes a text apart at a space and loses nothing: whatever `cutFirst` and `cutLast` answer, put
together with a space it is the text again, and the part that was cut off holds none
(`cutFirst_eq_some`, `cutLast_eq_some`).  So a text and its fields determine each other
(`fields?_eq_some`).  A payload has one text, with one exception: no text at all is read as no bytes,
which is written `-` (`parsePayload_eq_ok`).

Main statement: `parse_exact`.  A text is read as a line exactly if it is that line rendered, or
rendered with the mark of an empty payload left off.
-/
import Transact.Proofs.JournalText

namespace Transact.JournalLine

open Text

set_option autoImplicit false

/-! ## Cutting -/

/-- Cutting at the first space takes apart and drops nothing but the space. -/
theorem cutFirst_eq_some {text a b : List Char} :
    cutFirst text = some (a, b) ↔ ' ' ∉ a ∧ text = a ++ ' ' :: b := by
  constructor
  · intro cut
    induction text generalizing a with
    | nil => cases cut
    | cons c rest ih =>
        by_cases here : c = ' '
        · rw [cutFirst, if_pos here] at cut
          obtain ⟨rfl, rfl⟩ := Prod.mk.inj (Option.some.inj cut)
          exact ⟨List.not_mem_nil, by rw [here, List.nil_append]⟩
        · rw [cutFirst, if_neg here] at cut
          obtain ⟨⟨front, back⟩, later, same⟩ := Option.map_eq_some_iff.1 cut
          obtain ⟨rfl, rfl⟩ := Prod.mk.inj same
          obtain ⟨whole, rfl⟩ := ih later
          refine ⟨?_, rfl⟩
          intro member
          rcases List.mem_cons.1 member with first | there
          · exact here first.symm
          · exact whole there
  · rintro ⟨whole, rfl⟩
    exact cutFirst_append whole

theorem not_mem_of_cutLast {text : List Char} (uncut : cutLast text = none) : ' ' ∉ text := by
  induction text with
  | nil => exact List.not_mem_nil
  | cons c rest ih =>
      cases later : cutLast rest with
      | some parts =>
          simp only [cutLast, later] at uncut
          cases uncut
      | none =>
          simp only [cutLast, later] at uncut
          intro member
          rcases List.mem_cons.1 member with here | there
          · rw [if_pos here.symm] at uncut
            cases uncut
          · exact ih later there

/-- Cutting at the last space takes apart and drops nothing but the space. -/
theorem cutLast_eq_some {text a b : List Char} :
    cutLast text = some (a, b) ↔ ' ' ∉ b ∧ text = a ++ ' ' :: b := by
  constructor
  · intro cut
    induction text generalizing a with
    | nil => cases cut
    | cons c rest ih =>
        cases later : cutLast rest with
        | some parts =>
            simp only [cutLast, later] at cut
            obtain ⟨rfl, rfl⟩ := Prod.mk.inj (Option.some.inj cut)
            obtain ⟨whole, same⟩ := ih later
            exact ⟨whole, by rw [same, List.cons_append]⟩
        | none =>
            by_cases here : c = ' '
            · simp only [cutLast, later, if_pos here] at cut
              obtain ⟨rfl, rfl⟩ := Prod.mk.inj (Option.some.inj cut)
              exact ⟨not_mem_of_cutLast later, by rw [here, List.nil_append]⟩
            · simp only [cutLast, later, if_neg here] at cut
              cases cut
  · rintro ⟨whole, rfl⟩
    exact cutLast_append a whole

/-! ## Fields -/

/-- The text of a line with `last` for its payload field. -/
def spelled (line : JournalLine) (last : String) : String :=
  line.module ++ " " ++ line.op ++ " " ++ line.resource ++ " " ++ last

theorem spelled_payloadText (line : JournalLine) :
    line.spelled (payloadText line.payload) = line.render := rfl

theorem toList_spelled (line : JournalLine) (last : String) :
    (line.spelled last).toList = line.module.toList ++ ' ' :: (line.op.toList ++ ' ' ::
      (line.resource.toList ++ ' ' :: last.toList)) := by
  simp [spelled]

/-- **A text and its fields determine each other.** -/
theorem fields?_eq_some {text last : String} {line : JournalLine} :
    fields? text = some (line.module, line.op, line.resource, last) ↔
      line.Worded ∧ ' ' ∉ last.toList ∧ text = line.spelled last := by
  constructor
  · intro read
    unfold fields? at read
    obtain ⟨⟨module, afterModule⟩, first, read⟩ := Option.bind_eq_some_iff.1 read
    obtain ⟨⟨op, afterOp⟩, second, read⟩ := Option.bind_eq_some_iff.1 read
    obtain ⟨⟨resource, payload⟩, third, read⟩ := Option.bind_eq_some_iff.1 read
    obtain ⟨moduleWhole, start⟩ := cutFirst_eq_some.1 first
    obtain ⟨opWhole, middle⟩ := cutFirst_eq_some.1 second
    obtain ⟨payloadWhole, rest⟩ := cutLast_eq_some.1 third
    simp only at read
    split at read
    · cases read
    · next named =>
        simp only [Bool.or_eq_true, decide_eq_true_eq, not_or] at named
        rcases line with ⟨_, _, _, bytes⟩
        simp only [Option.some.injEq, Prod.mk.injEq] at read
        obtain ⟨rfl, rfl, rfl, rfl⟩ := read
        refine ⟨⟨?_, ?_, ?_, ?_⟩, ?_, ?_⟩
        · simpa using named.1
        · simpa using moduleWhole
        · simpa using named.2
        · simpa using opWhole
        · simpa using payloadWhole
        · simp [← String.toList_inj, toList_spelled, start, middle, rest]
  · rintro ⟨worded, whole, rfl⟩
    simp [fields?, toList_spelled, cutFirst_append worded.module, cutFirst_append worded.op,
      cutLast_append _ whole, worded.named, worded.acts]

/-- **A payload has one text**, but no text at all is read as no bytes as well. -/
theorem parsePayload_eq_ok {text : String} {payload : Bytes} :
    parsePayload text = .ok payload ↔ text = payloadText payload ∨ text = "" ∧ payload = [] := by
  by_cases marked : text = emptyPayload
  · rw [parsePayload, if_pos marked, marked]
    constructor
    · intro read
      rw [← Except.ok.inj read]
      exact .inl rfl
    · rintro (same | ⟨blank, -⟩)
      · unfold payloadText at same
        split at same
        · next empty => rw [empty]
        · exact absurd same.symm (encode_ne_emptyPayload payload)
      · exact absurd blank (by decide)
  · rw [parsePayload, if_neg marked, Base64.decode_eq_ok]
    unfold payloadText
    split
    · next empty =>
        subst empty
        have unwritten : Base64.encode [] = "" := rfl
        rw [unwritten]
        exact ⟨fun blank => .inr ⟨blank, rfl⟩, fun either => either.elim (absurd · marked) And.left⟩
    · next nonempty =>
        constructor
        · exact .inl
        · rintro (same | ⟨-, empty⟩)
          · exact same
          · exact absurd empty nonempty

/-- **A text is read as a line** exactly if it is that line rendered, or rendered with the mark of an
empty payload left off. -/
theorem parse_eq_ok {text : String} {line : JournalLine} :
    parse text = .ok line ↔
      line.Worded ∧ (text = line.render ∨ text = line.spelled "" ∧ line.payload = []) := by
  constructor
  · intro read
    unfold parse at read
    split at read
    · cases read
    · next module op resource last fields =>
        split at read
        · cases read
        · next payload accepted =>
            have taken : fields? text = some (line.module, line.op, line.resource, last) := by
              rw [fields, ← Except.ok.inj read]
            obtain ⟨worded, -, rfl⟩ := fields?_eq_some.1 taken
            rw [← Except.ok.inj read] at worded ⊢
            refine ⟨worded, ?_⟩
            rcases parsePayload_eq_ok.1 accepted with rfl | ⟨rfl, empty⟩
            · exact .inl rfl
            · exact .inr ⟨rfl, empty⟩
  · rintro ⟨worded, rfl | ⟨rfl, empty⟩⟩
    · exact parse_render worded
    · have fields : fields? (line.spelled "") = some (line.module, line.op, line.resource, "") :=
        fields?_eq_some.2 ⟨worded, by simp, rfl⟩
      have read : parsePayload "" = .ok line.payload := parsePayload_eq_ok.2 (.inr ⟨rfl, empty⟩)
      simp only [parse, fields, read]

theorem kind_of_parse_error {text : String} {e : Error} (refused : parse text = .error e) :
    e.kind = .decodingError := by
  unfold parse at refused
  split at refused
  · obtain rfl := Except.error.inj refused
    rfl
  · split at refused
    · next last _ cause rejected =>
        obtain rfl := Except.error.inj refused
        unfold parsePayload at rejected
        split at rejected
        · cases rejected
        · exact Base64.kind_of_decode_error rejected
    · cases refused

/-! ## Marks left off -/

/-- Nothing follows the last space: the last field is empty. -/
def endsInSpace (text : String) : Bool := text.toList.getLast? == some ' '

theorem endsInSpace_spelled (line : JournalLine) {last : String} (whole : ' ' ∉ last.toList) :
    endsInSpace (line.spelled last) = true ↔ last = "" := by
  rw [endsInSpace, toList_spelled, beq_iff_eq]
  constructor
  · intro ends
    by_contra written
    have nonempty : last.toList ≠ [] := by simpa using written
    simp only [List.getLast?_append, List.getLast?_cons, List.getLast?_eq_some_getLast nonempty,
      Option.getD_some, Option.some_or, Option.some.injEq] at ends
    exact whole (ends ▸ List.getLast_mem nonempty)
  · rintro rfl
    simp [List.getLast?_append, List.getLast?_cons]

theorem payloadText_ne_empty (payload : Bytes) : payloadText payload ≠ "" := by
  unfold payloadText
  split
  · decide
  · next nonempty =>
      intro blank
      have unwritten : "" = Base64.encode [] := rfl
      exact nonempty (Base64.encode_inj.1 (blank.trans unwritten))

theorem endsInSpace_render (line : JournalLine) : endsInSpace line.render = false := by
  rw [← spelled_payloadText, ← Bool.not_eq_true, endsInSpace_spelled _ (payloadText_word _)]
  exact payloadText_ne_empty line.payload

theorem endsInSpace_unmarked (line : JournalLine) : endsInSpace (line.spelled "") = true :=
  (endsInSpace_spelled line (by simp)).2 rfl

/-- Of what is read as a line, that which ends in a space lacks the mark. -/
theorem render_eq_iff {text : String} {line : JournalLine} (read : parse text = .ok line) :
    line.render = text ↔ endsInSpace text = false := by
  constructor
  · rintro rfl
    exact endsInSpace_render line
  · intro ends
    rcases (parse_eq_ok.1 read).2 with rfl | ⟨rfl, -⟩
    · rfl
    · rw [endsInSpace_unmarked] at ends
      cases ends

/-- A line has one text with its mark and at most one without. -/
theorem text_eq_iff {text other : String} {line : JournalLine} (read : parse text = .ok line)
    (otherRead : parse other = .ok line) :
    other = text ↔ endsInSpace other = endsInSpace text := by
  constructor
  · rintro rfl
    rfl
  · intro same
    rcases (parse_eq_ok.1 read).2 with rfl | ⟨rfl, -⟩
    · rw [endsInSpace_render] at same
      exact ((render_eq_iff otherRead).2 same).symm
    · rw [endsInSpace_unmarked] at same
      rcases (parse_eq_ok.1 otherRead).2 with rfl | ⟨rfl, -⟩
      · rw [endsInSpace_render] at same
        cases same
      · rfl

/-- **Which texts are read as a line.**  A text is read as a line exactly if the line's first two fields
are words and the text is the line rendered, or the line has no payload and the text is the line with
the mark of that left off; every other text is refused as undecodable.  So what is read renders as the
text it was read from, and no other text is read as the same line, unless a text ends in a space: it
then lacks the mark, and is read as the text with the mark is. -/
theorem parse_exact (text : String) :
    (∀ line, parse text = .ok line ↔
      line.Worded ∧ (text = line.render ∨ text = line.spelled "" ∧ line.payload = [])) ∧
    ((∃ e, parse text = .error e ∧ e.kind = .decodingError) ↔
      ∀ line : JournalLine, line.Worded →
        text ≠ line.render ∧ (line.payload = [] → text ≠ line.spelled "")) ∧
    ∀ line, parse text = .ok line →
      (line.render = text ↔ endsInSpace text = false) ∧
        ∀ other, parse other = .ok line → (other = text ↔ endsInSpace other = endsInSpace text) := by
  refine ⟨fun line => parse_eq_ok, ?_, fun line read =>
    ⟨render_eq_iff read, fun other otherRead => text_eq_iff read otherRead⟩⟩
  constructor
  · rintro ⟨e, refused, -⟩ line worded
    have unread : parse text ≠ .ok line := by
      rw [refused]
      exact nofun
    rw [ne_eq, parse_eq_ok, not_and, not_or, not_and'] at unread
    exact unread worded
  · intro foreign
    cases outcome : parse text with
    | error e => exact ⟨e, rfl, kind_of_parse_error outcome⟩
    | ok line =>
        obtain ⟨worded, spelling⟩ := parse_eq_ok.1 outcome
        obtain ⟨unrendered, marked⟩ := foreign line worded
        rcases spelling with same | ⟨same, empty⟩
        · exact absurd same unrendered
        · exact absurd same (marked empty)

/-- With its mark left off a line is read all the same, but does not render as it was written. -/
theorem parse_exact_unmarked :
    let line := JournalLine.of .pipe "write" (.pipeWrite 1) []
    parse "pipe write pipe:1:w -" = .ok line ∧ line.render = "pipe write pipe:1:w -" ∧
      parse "pipe write pipe:1:w " = .ok line ∧ line.render ≠ "pipe write pipe:1:w " := by
  intro line
  have worded : line.Worded := worded_of .pipe (by decide) (by decide) (.pipeWrite 1) []
  have marked : parse line.render = .ok line := (parse_exact _).1 line |>.2 ⟨worded, .inl rfl⟩
  have unmarked : parse (line.spelled "") = .ok line :=
    (parse_exact _).1 line |>.2 ⟨worded, .inr ⟨rfl, rfl⟩⟩
  have differs := ((parse_exact _).2.2 line unmarked).1
  rw [endsInSpace_unmarked] at differs
  exact ⟨marked, rfl, unmarked, fun same => Bool.noConfusion (differs.1 same)⟩

end Transact.JournalLine
