/-
# Transact.Proofs.Encoding -- each byte string has one text, and each such text is read back

A block of text stands for one, two or three bytes: their number is written with two, three or four
digits and filled up.  Reading digits gives back the number they write and nothing else
(`readDigits_eq_ok`), and reading a block accepts just the digits of a number whose spare bits are zero
(`decodeBlock_eq_ok`).  So blocks of text and groups of bytes correspond, one to one.

Main statement: `decode_exact`.  A text is accepted with some bytes exactly if it is their encoding;
every other text is refused.
-/
import Mathlib.Data.List.TakeWhile
import Mathlib.Tactic.Ring
import Transact.Text.Base64

namespace Transact.Text.Base64

set_option autoImplicit false

/-! ## Digits -/

/-- The byte of a digit. -/
def code (n : Nat) : UInt8 := UInt8.ofNat (digit n).toNat

theorem value?_code {n : Nat} (small : n < 64) : value? (code n) = some n := by
  have all : ∀ n : Fin 64, value? (code n) = some n.val := by decide
  exact all ⟨n, small⟩

theorem code_of_value? {byte : UInt8} {n : Nat} (known : value? byte = some n) :
    n < 64 ∧ byte = code n := by
  have all : ∀ b : Fin 256, ∀ n ∈ value? (UInt8.ofNat b), n < 64 ∧ UInt8.ofNat b = code n := by
    decide +kernel
  have here := all ⟨byte.toNat, byte.toNat_lt⟩ n
  rw [UInt8.ofNat_toNat] at here
  exact here known

theorem code_inj {m n : Nat} (left : m < 64) (right : n < 64) (same : code m = code n) : m = n := by
  have known := value?_code left
  rw [same, value?_code right] at known
  exact (Option.some.inj known).symm

theorem code_ne_pad {n : Nat} (small : n < 64) : code n ≠ pad := by
  intro same
  have known := value?_code small
  rw [same] at known
  cases known

/-- The last `len` digits of a number, as bytes. -/
def spell : Nat → Nat → Bytes
  | 0, _ => []
  | len + 1, n => code (n / 64 ^ len % 64) :: spell len n

theorem length_spell (len n : Nat) : (spell len n).length = len := by
  induction len with
  | zero => rfl
  | succ len ih => rw [spell, List.length_cons, ih]

/-- Only the last digits count. -/
theorem spell_add (len high n : Nat) : spell len (high * 64 ^ len + n) = spell len n := by
  induction len generalizing high with
  | zero => rfl
  | succ len ih =>
      have shifted : high * 64 ^ (len + 1) + n = high * 64 * 64 ^ len + n := by ring
      have place : (high * 64 * 64 ^ len + n) / 64 ^ len % 64 = n / 64 ^ len % 64 := by
        rw [Nat.mul_comm, Nat.mul_add_div (Nat.pow_pos (by decide)), Nat.mul_comm high,
          Nat.mul_add_mod]
      rw [spell, spell, shifted, ih, place]

/-- The first digits of a number are those of what is left without the last ones. -/
theorem spell_append (front back n : Nat) :
    spell (front + back) n = spell front (n / 64 ^ back) ++ spell back n := by
  induction front with
  | zero => rw [Nat.zero_add, spell, List.nil_append]
  | succ front ih =>
      rw [Nat.succ_add, spell, spell, ih, List.cons_append, Nat.div_div_eq_div_mul, ← pow_add,
        Nat.add_comm back]

/-- **Reading digits gives back the number they write**, and accepts nothing else. -/
theorem readDigits_eq_ok {offset acc n : Nat} {text : Bytes} :
    readDigits offset acc text = .ok n ↔
      ∃ m < 64 ^ text.length, n = acc * 64 ^ text.length + m ∧ text = spell text.length m := by
  induction text generalizing offset acc with
  | nil => simp [readDigits, spell, eq_comm]
  | cons byte rest ih =>
      simp only [readDigits, List.length_cons, spell]
      cases known : value? byte with
      | none =>
          refine iff_of_false (fun read => by cases read) ?_
          rintro ⟨m, -, -, same⟩
          rw [(List.cons.inj same).1, value?_code (Nat.mod_lt _ (by decide))] at known
          cases known
      | some d =>
          obtain ⟨small, rfl⟩ := code_of_value? known
          have positive : 0 < 64 ^ rest.length := Nat.pow_pos (by decide)
          have power : 64 ^ (rest.length + 1) = 64 * 64 ^ rest.length := by ring
          simp only [ih]
          constructor
          · rintro ⟨m, bound, rfl, same⟩
            refine ⟨d * 64 ^ rest.length + m, ?_, ?_, ?_⟩
            · calc d * 64 ^ rest.length + m < (d + 1) * 64 ^ rest.length := by
                    rw [Nat.add_mul, Nat.one_mul]
                    exact Nat.add_lt_add_left bound _
                _ ≤ 64 ^ (rest.length + 1) := power ▸ Nat.mul_le_mul_right _ small
            · ring
            · rw [spell_add, ← same, Nat.mul_comm, Nat.mul_add_div positive, Nat.div_eq_of_lt bound,
                Nat.add_zero, Nat.mod_eq_of_lt small]
          · rintro ⟨m, bound, rfl, same⟩
            obtain ⟨first, later⟩ := List.cons.inj same
            have high : m / 64 ^ rest.length < 64 := by
              rw [Nat.div_lt_iff_lt_mul positive, ← power]
              exact bound
            rw [Nat.mod_eq_of_lt high] at first
            have split := Nat.div_add_mod' m (64 ^ rest.length)
            refine ⟨m % 64 ^ rest.length, Nat.mod_lt _ positive, ?_, ?_⟩
            · rw [code_inj small high first]
              conv_lhs => rw [← split]
              ring
            · conv_lhs => rw [later, ← split, spell_add]

/-! ## Blocks -/

/-- The digits of `n` and enough padding to fill the block. -/
def filled (fill n : Nat) : Bytes := spell (4 - fill) n ++ List.replicate fill pad

theorem length_filled {fill : Nat} (few : fill ≤ 2) (n : Nat) : (filled fill n).length = 4 := by
  rw [filled, List.length_append, length_spell, List.length_replicate]
  omega

theorem padding_append (front : Bytes) {byte : UInt8} (other : byte ≠ pad) (fill : Nat) :
    padding (front ++ byte :: List.replicate fill pad) = fill := by
  have padded : ∀ b ∈ List.replicate fill pad, (b == pad) = true :=
    fun b member => beq_iff_eq.2 (List.eq_of_mem_replicate member)
  rw [padding, List.reverse_append, List.reverse_cons, List.reverse_replicate, List.append_assoc,
    List.takeWhile_append_of_pos padded, List.singleton_append,
    List.takeWhile_cons_of_neg (by simpa using other), List.append_nil, List.length_replicate]

theorem padding_filled {fill : Nat} (few : fill ≤ 2) (n : Nat) : padding (filled fill n) = fill := by
  have last : 4 - fill = 3 - fill + 1 := by omega
  have single : spell 1 n = [code (n % 64)] := by simp [spell]
  rw [filled, last, spell_append, single, List.append_assoc, List.singleton_append,
    padding_append _ (code_ne_pad (Nat.mod_lt _ (by decide)))]

/-- A block is what stands before its padding, and the padding. -/
theorem take_padding (block : Bytes) :
    block = block.take (block.length - padding block) ++ List.replicate (padding block) pad := by
  have padded : block.reverse.takeWhile (· == pad) = List.replicate (padding block) pad :=
    List.eq_replicate_iff.2 ⟨rfl, fun b member =>
      beq_iff_eq.1 (List.mem_takeWhile_imp (p := (· == pad)) member)⟩
  have split : (block.reverse.dropWhile (· == pad)).reverse ++ List.replicate (padding block) pad =
      block := by
    rw [← List.reverse_replicate, ← padded, ← List.reverse_append, List.takeWhile_append_dropWhile,
      List.reverse_reverse]
  have size : (block.reverse.dropWhile (· == pad)).reverse.length =
      block.length - padding block := by
    have total := congrArg List.length split
    rw [List.length_append, List.length_replicate] at total
    omega
  rw [(congrArg _ split).symm.trans (List.take_left' size), split]

/-- **Reading a block accepts the digits of a number whose spare bits are zero**, filled up only at the
end. -/
theorem decodeBlock_eq_ok {index : Nat} {last : Bool} {block bytes : Bytes}
    (four : block.length = 4) :
    decodeBlock index last block = .ok bytes ↔
      ∃ fill n, fill ≤ 2 ∧ (fill = 0 ∨ last = true) ∧ n < 64 ^ (4 - fill) ∧
        n * 64 ^ fill % 256 ^ fill = 0 ∧ block = filled fill n ∧
        bytes = (bytesOf (n * 64 ^ fill)).take (3 - fill) := by
  constructor
  · intro accepted
    have parts := take_padding block
    rw [four] at parts
    have front : (block.take (4 - padding block)).length = 4 - padding block := by
      rw [List.length_take, four, Nat.min_eq_left (Nat.sub_le _ _)]
    simp only [decodeBlock] at accepted
    split at accepted
    · cases accepted
    · next allowed =>
      simp only [Bool.or_eq_true, Bool.and_eq_true, decide_eq_true_eq, not_or, not_and,
        Bool.not_eq_true', Bool.not_eq_false] at allowed
      split at accepted
      · cases accepted
      · next n read =>
        split at accepted
        · cases accepted
        · next whole =>
          obtain ⟨m, bound, value, same⟩ := readDigits_eq_ok.1 read
          rw [front] at bound same
          rw [Nat.zero_mul, Nat.zero_add] at value
          subst value
          refine ⟨padding block, n, Nat.not_lt.1 allowed.1, ?_, bound, not_not.1 whole, ?_,
            (Except.ok.inj accepted).symm⟩
          · exact (Nat.eq_zero_or_pos _).imp_right allowed.2
          · rw [filled, ← same]
            exact parts
  · rintro ⟨fill, n, few, place, bound, whole, rfl, rfl⟩
    have read : readDigits (index * 4) 0 ((filled fill n).take (4 - fill)) = .ok n := by
      rw [filled, List.take_left' (length_spell _ _)]
      exact readDigits_eq_ok.2 ⟨n, by rwa [length_spell], by rw [Nat.zero_mul, Nat.zero_add],
        by rw [length_spell]⟩
    have allowed : ¬ (fill > 2 ∨ fill > 0 ∧ last = false) := by
      rcases place with rfl | rfl <;> simp
      omega
    simp only [decodeBlock, padding_filled few, read]
    rw [if_neg (by simpa using allowed)]
    exact if_neg (not_not.2 whole)

/-! ## Groups of bytes -/

theorem triple_eq (a b c : UInt8) : triple a b c = a.toNat * 65536 + b.toNat * 256 + c.toNat := rfl

theorem bytesOf_triple (a b c : UInt8) : bytesOf (triple a b c) = [a, b, c] := by
  have := a.toNat_lt
  have := b.toNat_lt
  have := c.toNat_lt
  have first : UInt8.ofNat (triple a b c / Nat.pow 2 16) = a := by
    apply UInt8.toNat.inj
    rw [UInt8.toNat_ofNat', triple_eq]
    show _ / 65536 % 256 = _
    omega
  have second : UInt8.ofNat (triple a b c / Nat.pow 2 8) = b := by
    apply UInt8.toNat.inj
    rw [UInt8.toNat_ofNat', triple_eq]
    show _ / 256 % 256 = _
    omega
  have third : UInt8.ofNat (triple a b c) = c := by
    apply UInt8.toNat.inj
    rw [UInt8.toNat_ofNat', triple_eq]
    show _ % 256 = _
    omega
  rw [bytesOf, first, second, third]

/-- Every number of three bytes is that of its bytes. -/
theorem exists_triple {n : Nat} (bound : n < 16777216) : ∃ a b c, triple a b c = n := by
  refine ⟨UInt8.ofNat (n / 65536), UInt8.ofNat (n / 256), UInt8.ofNat n, ?_⟩
  rw [triple_eq, UInt8.toNat_ofNat', UInt8.toNat_ofNat', UInt8.toNat_ofNat']
  omega

/-- The bytes of a text of characters. -/
def codes (chars : List Char) : Bytes := chars.flatMap String.utf8EncodeChar

theorem codes_append (front back : List Char) : codes (front ++ back) = codes front ++ codes back :=
  List.flatMap_append

theorem utf8EncodeChar_digit {n : Nat} (small : n < 64) :
    String.utf8EncodeChar (digit n) = [code n] := by
  have all : ∀ n : Fin 64, String.utf8EncodeChar (digit n) = [code n] := by decide
  exact all ⟨n, small⟩

theorem codes_digit (n : Nat) (later : List Char) :
    codes (digit (n % 64) :: later) = code (n % 64) :: codes later := by
  rw [codes, List.flatMap_cons, utf8EncodeChar_digit (Nat.mod_lt _ (by decide))]
  rfl

theorem codes_pad (later : List Char) : codes ('=' :: later) = pad :: codes later := rfl

/-- The text of three bytes is the four digits of their number. -/
theorem codes_three (a b c : UInt8) : codes (encodeChars [a, b, c]) = filled 0 (triple a b c) := by
  rw [encodeChars, digits]
  simp only [encodeChars, codes_digit, filled, spell, List.replicate_zero, List.append_nil]
  simp only [codes, List.flatMap_nil, pow_zero, Nat.div_one]
  rfl

/-- The text of two bytes is three digits and one padding character. -/
theorem codes_two (a b : UInt8) : codes (encodeChars [a, b]) = filled 1 (triple a b 0 / 64) := by
  simp only [encodeChars, digits, List.take_succ_cons, List.take_zero, List.cons_append,
    List.nil_append, codes_digit, codes_pad, filled, spell, List.replicate, Nat.div_div_eq_div_mul]
  rfl

/-- The text of one byte is two digits and two padding characters. -/
theorem codes_one (a : UInt8) : codes (encodeChars [a]) = filled 2 (triple a 0 0 / 64 ^ 2) := by
  simp only [encodeChars, digits, List.take_succ_cons, List.take_zero, List.cons_append,
    List.nil_append, codes_digit, codes_pad, filled, spell, List.replicate, Nat.div_div_eq_div_mul]
  rfl

/-- The digits of a number whose spare bits are zero are the text of its bytes. -/
theorem codes_of_filled {fill n : Nat} (few : fill ≤ 2) (bound : n < 64 ^ (4 - fill))
    (whole : n * 64 ^ fill % 256 ^ fill = 0) :
    filled fill n = codes (encodeChars ((bytesOf (n * 64 ^ fill)).take (3 - fill))) := by
  have inside : n * 64 ^ fill < 16777216 := by
    rcases (by omega : fill = 0 ∨ fill = 1 ∨ fill = 2) with rfl | rfl | rfl <;> omega
  obtain ⟨a, b, c, number⟩ := exists_triple inside
  have := a.toNat_lt
  have := b.toNat_lt
  have := c.toNat_lt
  rw [← number, bytesOf_triple]
  rw [← number, triple_eq] at whole
  rw [triple_eq] at number
  rcases (by omega : fill = 0 ∨ fill = 1 ∨ fill = 2) with rfl | rfl | rfl
  · rw [List.take_of_length_le (by simp), codes_three, triple_eq, number, pow_zero, Nat.mul_one]
  · have spare : c = 0 := UInt8.toNat.inj (show c.toNat = 0 by omega)
    subst spare
    show _ = codes (encodeChars [a, b])
    rw [codes_two, triple_eq, number, pow_one, Nat.mul_div_cancel _ (by decide)]
  · have middle : b = 0 := UInt8.toNat.inj (show b.toNat = 0 by omega)
    have spare : c = 0 := UInt8.toNat.inj (show c.toNat = 0 by omega)
    subst middle spare
    show _ = codes (encodeChars [a])
    rw [codes_one, triple_eq, number, Nat.mul_div_cancel _ (by decide)]

/-- The text of one, two or three bytes is the digits of a number whose spare bits are zero. -/
theorem filled_of_codes {bytes : Bytes} (nonempty : bytes ≠ []) (few : bytes.length ≤ 3) :
    ∃ fill n, fill + bytes.length = 3 ∧ n < 64 ^ (4 - fill) ∧ n * 64 ^ fill % 256 ^ fill = 0 ∧
      codes (encodeChars bytes) = filled fill n ∧
      bytes = (bytesOf (n * 64 ^ fill)).take (3 - fill) := by
  match bytes, nonempty, few with
  | [a], _, _ =>
      have := a.toNat_lt
      have number : triple a 0 0 / 64 ^ 2 * 64 ^ 2 = triple a 0 0 := by
        rw [triple_eq]
        show (a.toNat * 65536 + 0 * 256 + 0) / 4096 * 4096 = a.toNat * 65536 + 0 * 256 + 0
        omega
      refine ⟨2, _, rfl, ?_, ?_, codes_one a, ?_⟩
      · rw [triple_eq]
        show (a.toNat * 65536 + 0 * 256 + 0) / 4096 < 4096
        omega
      · rw [number, triple_eq]
        show (a.toNat * 65536 + 0 * 256 + 0) % 65536 = 0
        omega
      · rw [number, bytesOf_triple]
        rfl
  | [a, b], _, _ =>
      have := a.toNat_lt
      have := b.toNat_lt
      have number : triple a b 0 / 64 * 64 ^ 1 = triple a b 0 := by
        rw [triple_eq]
        show (a.toNat * 65536 + b.toNat * 256 + 0) / 64 * 64 = a.toNat * 65536 + b.toNat * 256 + 0
        omega
      refine ⟨1, _, rfl, ?_, ?_, codes_two a b, ?_⟩
      · rw [triple_eq]
        show (a.toNat * 65536 + b.toNat * 256 + 0) / 64 < 262144
        omega
      · rw [number, triple_eq]
        show (a.toNat * 65536 + b.toNat * 256 + 0) % 256 = 0
        omega
      · rw [number, bytesOf_triple]
        rfl
  | [a, b, c], _, _ =>
      have := a.toNat_lt
      have := b.toNat_lt
      have := c.toNat_lt
      refine ⟨0, _, rfl, ?_, Nat.mod_one _, codes_three a b c, ?_⟩
      · rw [triple_eq]
        show _ < 16777216
        omega
      · rw [pow_zero, Nat.mul_one, bytesOf_triple]
        rfl

/-- **Reading a block accepts the text of one, two or three bytes**, and of less than three only at the
end. -/
theorem decodeBlock_eq_ok_iff {index : Nat} {last : Bool} {block bytes : Bytes}
    (four : block.length = 4) :
    decodeBlock index last block = .ok bytes ↔
      bytes ≠ [] ∧ bytes.length ≤ 3 ∧ (bytes.length = 3 ∨ last = true) ∧
        block = codes (encodeChars bytes) := by
  rw [decodeBlock_eq_ok four]
  constructor
  · rintro ⟨fill, n, few, place, bound, whole, rfl, rfl⟩
    have size : ((bytesOf (n * 64 ^ fill)).take (3 - fill)).length = 3 - fill := by
      rw [List.length_take, bytesOf]
      show min (3 - fill) 3 = 3 - fill
      omega
    refine ⟨List.ne_nil_of_length_pos (by omega), by omega, ?_, codes_of_filled few bound whole⟩
    exact place.imp_left fun unfilled => by omega
  · rintro ⟨nonempty, few, place, rfl⟩
    have positive := List.length_pos_iff.2 nonempty
    obtain ⟨fill, n, size, bound, whole, same, value⟩ := filled_of_codes nonempty few
    exact ⟨fill, n, by omega, place.imp_left fun full => by omega, bound, whole, same, value⟩

/-! ## Whole texts -/

theorem encodeChars_append {group : Bytes} (more : Bytes)
    (whole : group.length = 3 ∨ more = []) :
    encodeChars (group ++ more) = encodeChars group ++ encodeChars more := by
  rcases whole with three | rfl
  · match group, three with
    | [a, b, c], _ => simp [encodeChars]
  · simp [encodeChars]

/-- The text of some bytes is that of the first three, and that of the others. -/
theorem codes_split (bytes : Bytes) :
    codes (encodeChars bytes) =
      codes (encodeChars (bytes.take 3)) ++ codes (encodeChars (bytes.drop 3)) := by
  have whole : (bytes.take 3).length = 3 ∨ bytes.drop 3 = [] := by
    rw [List.length_take, List.drop_eq_nil_iff]
    omega
  rw [← codes_append, ← encodeChars_append _ whole, List.take_append_drop]

theorem length_codes_group {bytes : Bytes} (nonempty : bytes ≠ []) (few : bytes.length ≤ 3) :
    (codes (encodeChars bytes)).length = 4 := by
  match bytes, nonempty, few with
  | [a], _, _ => rw [codes_one, length_filled (by decide)]
  | [a, b], _, _ => rw [codes_two, length_filled (by decide)]
  | [a, b, c], _, _ => rw [codes_three, length_filled (by decide)]

theorem take_three_ne_nil {bytes : Bytes} (nonempty : bytes ≠ []) : bytes.take 3 ≠ [] := by
  simpa [List.take_eq_nil_iff] using nonempty

theorem codes_eq_nil {bytes : Bytes} (blank : codes (encodeChars bytes) = []) : bytes = [] := by
  by_contra nonempty
  have group := length_codes_group (take_three_ne_nil nonempty) (List.length_take_le 3 bytes)
  rw [codes_split, List.append_eq_nil_iff] at blank
  rw [blank.1] at group
  cases group

theorem length_codes_mod (bytes : Bytes) : (codes (encodeChars bytes)).length % 4 = 0 := by
  induction bytes using encodeChars.induct with
  | case1 => rfl
  | case2 a => rw [codes_one, length_filled (by decide)]
  | case3 a b => rw [codes_two, length_filled (by decide)]
  | case4 a b c rest ih =>
      rw [← List.singleton_append, codes_split, List.length_append]
      show ((codes (encodeChars [a, b, c])).length + _) % 4 = 0
      rw [length_codes_group (by simp) (by simp), Nat.add_mod_left]
      exact ih

/-- **Whole blocks are accepted with some bytes exactly if they are their text.** -/
theorem decodeBlocks_eq_ok :
    ∀ {index : Nat} {text bytes : Bytes}, text.length % 4 = 0 →
      (decodeBlocks index text = .ok bytes ↔ text = codes (encodeChars bytes))
  | index, a :: b :: c :: d :: rest, bytes, whole => by
      have shorter : rest.length % 4 = 0 := by
        rw [List.length_cons, List.length_cons, List.length_cons, List.length_cons] at whole
        omega
      rw [decodeBlocks]
      constructor
      · intro accepted
        split at accepted
        · cases accepted
        · next group first =>
          obtain ⟨nonempty, few, place, same⟩ := (decodeBlock_eq_ok_iff rfl).1 first
          split at accepted
          · cases accepted
          · next more later =>
            obtain rfl := Except.ok.inj accepted
            have tail := (decodeBlocks_eq_ok shorter).1 later
            have whole : group.length = 3 ∨ more = [] := place.imp_right fun last =>
              codes_eq_nil (tail.symm.trans (List.isEmpty_iff.1 last))
            rw [encodeChars_append _ whole, codes_append, ← same, ← tail]
            rfl
      · intro same
        have nonempty : bytes ≠ [] := by
          rintro rfl
          cases same
        have few := List.length_take_le 3 bytes
        have halves : [a, b, c, d] ++ rest = _ := same.trans (codes_split bytes)
        obtain ⟨block, tail⟩ := List.append_inj halves
          (length_codes_group (take_three_ne_nil nonempty) few).symm
        have place : (bytes.take 3).length = 3 ∨ rest.isEmpty = true := by
          rw [tail, List.length_take]
          by_cases long : 3 ≤ bytes.length
          · exact .inl (Nat.min_eq_left long)
          · rw [List.drop_eq_nil_of_le (by omega)]
            exact .inr rfl
        rw [(decodeBlock_eq_ok_iff rfl).2 ⟨take_three_ne_nil nonempty, few, place, block⟩,
          (decodeBlocks_eq_ok shorter).2 tail]
        exact congrArg _ (List.take_append_drop 3 bytes)
  | index, [], bytes, _ => by
      rw [decodeBlocks]
      · refine ⟨fun accepted => ?_, fun same => ?_⟩
        · rw [← Except.ok.inj accepted]
          rfl
        · rw [codes_eq_nil same.symm]
      · simp
  | index, [_], _, whole => by cases whole
  | index, [_, _], _, whole => by cases whole
  | index, [_, _, _], _, whole => by cases whole

theorem decodeBytes_eq_ok {text bytes : Bytes} :
    decodeBytes text = .ok bytes ↔ text = codes (encodeChars bytes) := by
  rw [decodeBytes]
  split
  · next broken =>
    refine iff_of_false (fun accepted => by cases accepted) ?_
    rintro rfl
    exact broken (length_codes_mod bytes)
  · next whole => exact decodeBlocks_eq_ok (not_not.1 whole)

theorem utf8_inj {s t : String} : utf8 s = utf8 t ↔ s = t := by
  refine ⟨fun same => ?_, fun same => same ▸ rfl⟩
  have bytes : s.toList.utf8Encode = t.toList.utf8Encode := congrArg List.toByteArray same
  have read := congrArg ByteArray.utf8Decode? bytes
  rw [List.utf8Decode?_utf8Encode, List.utf8Decode?_utf8Encode] at read
  exact String.toList_inj.1 (congrArg Array.toList (Option.some.inj read))

theorem decode_eq_ok {text : String} {bytes : Bytes} :
    decode text = .ok bytes ↔ text = encode bytes := by
  have inner : decode text = .ok bytes ↔ decodeBytes (utf8 text) = .ok bytes := by
    rw [decode]
    cases decodeBytes (utf8 text) <;> simp [Except.mapError]
  rw [inner, decodeBytes_eq_ok, ← utf8_inj (t := encode bytes), encode, utf8, utf8, String.toList_ofList]
  rfl

theorem kind_of_decode_error {text : String} {e : Error} (refused : decode text = .error e) :
    e.kind = .decodingError := by
  rw [decode] at refused
  cases outcome : decodeBytes (utf8 text) with
  | ok bytes => rw [outcome] at refused; cases refused
  | error m =>
      rw [outcome] at refused
      obtain rfl := Except.error.inj refused
      rfl

/-- Bytes survive the round trip. -/
theorem decode_encode (bytes : Bytes) : decode (encode bytes) = .ok bytes := decode_eq_ok.2 rfl

theorem encode_inj {a b : Bytes} : encode a = encode b ↔ a = b := by
  refine ⟨fun same => ?_, fun same => same ▸ rfl⟩
  have read := decode_encode a
  rw [same, decode_encode] at read
  exact (Except.ok.inj read).symm

/-- **A text is accepted with some bytes exactly if it is their encoding, and refused as undecodable
exactly if it is the encoding of none.** -/
theorem decode_exact (text : String) :
    (∀ bytes, decode text = .ok bytes ↔ text = encode bytes) ∧
      ((∃ e, decode text = .error e ∧ e.kind = .decodingError) ↔ ∀ bytes, text ≠ encode bytes) := by
  refine ⟨fun bytes => decode_eq_ok, ?_⟩
  constructor
  · rintro ⟨e, refused, -⟩ bytes same
    rw [decode_eq_ok.2 same] at refused
    cases refused
  · intro foreign
    cases outcome : decode text with
    | ok bytes => exact absurd (decode_eq_ok.1 outcome) (foreign bytes)
    | error e => exact ⟨e, rfl, kind_of_decode_error outcome⟩

end Transact.Text.Base64
