import GardenLinux.Lib.PyCall
import GardenLinux.Lib.Text

/-!
# Reading JSON

A reader of JSON texts, one character at a time, with the lists and objects that it is in on a
stack.  Numbers are integers; all escape sequences are read.

What is proved here:

* `Reads.word`, `Reads.int`, `Reads.text`, `Reads.list` and `Reads.dict` — how a value is read that
  is written with `", "` and `": "` between its parts;
* `Reads.read` — a text that is read as a value where one is expected is a document of that value.
-/

namespace Json

open Bash (dquote backslash)

inductive Value
  | null
  | bool (b : Bool)
  | int (i : ℤ)
  | text (s : List Char)
  | list (items : List Value)
  | dict (entries : List (List Char × Value))

/-- The value of a field of an object. -/
def Value.field (name : List Char) : Value → Option Value
  | .dict entries => entries.lookup name
  | _ => none

def isSpace (c : Char) : Bool := c = ' ' || c = '\t' || c = '\n' || c = '\r'

/-! ## Texts -/

/-- Where the reader is in a text: between characters, behind a backslash, in a code unit of some
digits to come, and in front of or in the second unit of a pair. -/
inductive TextPlace
  | plain
  | escape
  | unit (value left : ℕ)
  | pair (high : ℕ)
  | pairEscape (high : ℕ)
  | pairUnit (high value left : ℕ)
  deriving DecidableEq, Repr

structure TextReader where
  place : TextPlace
  chars : List Char
  deriving DecidableEq, Repr

def hexValue (c : Char) : Option ℕ :=
  let n := c.toNat
  if 48 ≤ n ∧ n ≤ 57 then some (n - 48)
  else if 97 ≤ n ∧ n ≤ 102 then some (n - 87)
  else if 65 ≤ n ∧ n ≤ 70 then some (n - 55)
  else none

/-- The character of `\c`. -/
def escaped (c : Char) : Option Char :=
  if c = dquote ∨ c = backslash ∨ c = '/' then some c
  else if c = 'b' then some (Char.ofNat 8)
  else if c = 'f' then some (Char.ofNat 12)
  else if c = 'n' then some '\n'
  else if c = 'r' then some '\r'
  else if c = 't' then some '\t'
  else none

/-- A whole code unit has been read. -/
def TextReader.unit (chars : List Char) (value : ℕ) : TextReader :=
  if 0xd800 ≤ value ∧ value < 0xdc00 then ⟨.pair value, chars⟩
  else ⟨.plain, chars ++ [Char.ofNat value]⟩

/-- A character of a text, other than the quote that closes it. -/
def TextReader.step (reader : TextReader) (c : Char) : Option TextReader :=
  match reader.place with
  | .plain =>
    if c = dquote then none
    else if c = backslash then some ⟨.escape, reader.chars⟩
    else if 32 ≤ c.toNat then some ⟨.plain, reader.chars ++ [c]⟩
    else none
  | .escape =>
    if c = 'u' then some ⟨.unit 0 3, reader.chars⟩
    else (escaped c).map fun e => ⟨.plain, reader.chars ++ [e]⟩
  | .unit value left =>
    (hexValue c).map fun d =>
      match left with
      | 0 => TextReader.unit reader.chars (16 * value + d)
      | left + 1 => ⟨.unit (16 * value + d) left, reader.chars⟩
  | .pair high => if c = backslash then some ⟨.pairEscape high, reader.chars⟩ else none
  | .pairEscape high => if c = 'u' then some ⟨.pairUnit high 0 3, reader.chars⟩ else none
  | .pairUnit high value left =>
    (hexValue c).map fun d =>
      match left with
      | 0 => ⟨.plain, reader.chars ++
          [Char.ofNat (0x10000 + (high - 0xd800) * 1024 + (16 * value + d - 0xdc00))]⟩
      | left + 1 => ⟨.pairUnit high (16 * value + d) left, reader.chars⟩

/-! ## Values -/

/-- A list or an object that has been begun. -/
inductive Frame
  | list (items : List Value)
  | dict (entries : List (List Char × Value)) (key : List Char)

/-- Where the reader is: in front of a value, behind an opening bracket or brace, in front of a
key, in a key, behind it, in a text, in a word, in a number, and behind a value. -/
inductive Place
  | value
  | first
  | firstKey
  | nextKey (entries : List (List Char × Value))
  | key (entries : List (List Char × Value)) (reader : TextReader)
  | colon (entries : List (List Char × Value)) (key : List Char)
  | text (reader : TextReader)
  | word (rest : List Char) (value : Value)
  | minus
  | digits (negative : Bool) (n : ℕ)
  | behind (value : Value)

structure Reader where
  place : Place
  stack : List Frame

def signed (negative : Bool) (n : ℕ) : ℤ := if negative then -n else n

/-- A character behind a value. -/
def deliver (value : Value) (stack : List Frame) (c : Char) : Option Reader :=
  if isSpace c then some ⟨.behind value, stack⟩
  else match stack with
    | [] => none
    | .list items :: stack =>
      if c = ',' then some ⟨.value, .list (items ++ [value]) :: stack⟩
      else if c = ']' then some ⟨.behind (.list (items ++ [value])), stack⟩
      else none
    | .dict entries key :: stack =>
      if c = ',' then some ⟨.nextKey (entries ++ [(key, value)]), stack⟩
      else if c.toNat = 125 then some ⟨.behind (.dict (entries ++ [(key, value)])), stack⟩
      else none

/-- The first character of a value. -/
def begin (stack : List Frame) (c : Char) : Option Reader :=
  if isSpace c then some ⟨.value, stack⟩
  else if c = dquote then some ⟨.text ⟨.plain, []⟩, stack⟩
  else if c = '[' then some ⟨.first, stack⟩
  else if c.toNat = 123 then some ⟨.firstKey, stack⟩
  else if c = 'n' then some ⟨.word ['u', 'l', 'l'] .null, stack⟩
  else if c = 't' then some ⟨.word ['r', 'u', 'e'] (.bool true), stack⟩
  else if c = 'f' then some ⟨.word ['a', 'l', 's', 'e'] (.bool false), stack⟩
  else if c = '-' then some ⟨.minus, stack⟩
  else if c.isDigit then some ⟨.digits false (c.toNat - 48), stack⟩
  else none

def Reader.step (reader : Reader) (c : Char) : Option Reader :=
  match reader.place with
  | .value => begin reader.stack c
  | .first =>
    if isSpace c then some reader
    else if c = ']' then some ⟨.behind (.list []), reader.stack⟩
    else begin (.list [] :: reader.stack) c
  | .firstKey =>
    if isSpace c then some reader
    else if c = dquote then some ⟨.key [] ⟨.plain, []⟩, reader.stack⟩
    else if c.toNat = 125 then some ⟨.behind (.dict []), reader.stack⟩
    else none
  | .nextKey entries =>
    if isSpace c then some reader
    else if c = dquote then some ⟨.key entries ⟨.plain, []⟩, reader.stack⟩
    else none
  | .key entries text =>
    if text.place = .plain ∧ c = dquote then some ⟨.colon entries text.chars, reader.stack⟩
    else (text.step c).map fun text => ⟨.key entries text, reader.stack⟩
  | .colon entries key =>
    if isSpace c then some reader
    else if c = ':' then some ⟨.value, .dict entries key :: reader.stack⟩
    else none
  | .text text =>
    if text.place = .plain ∧ c = dquote then some ⟨.behind (.text text.chars), reader.stack⟩
    else (text.step c).map fun text => ⟨.text text, reader.stack⟩
  | .word rest value =>
    match rest with
    | [] => deliver value reader.stack c
    | next :: rest => if c = next then some ⟨.word rest value, reader.stack⟩ else none
  | .minus => if c.isDigit then some ⟨.digits true (c.toNat - 48), reader.stack⟩ else none
  | .digits negative n =>
    if c.isDigit then some ⟨.digits negative (10 * n + (c.toNat - 48)), reader.stack⟩
    else deliver (.int (signed negative n)) reader.stack c
  | .behind value => deliver value reader.stack c

/-- The value that has been read, when nothing is left to close. -/
def Reader.result : Reader → Option Value
  | ⟨.word [] value, []⟩ => some value
  | ⟨.digits negative n, []⟩ => some (.int (signed negative n))
  | ⟨.behind value, []⟩ => some value
  | _ => none

def read (s : List Char) : Option Value := (s.foldlM Reader.step ⟨.value, []⟩).bind Reader.result

/-! ## How texts are read -/

theorem foldlM_cons_some {α β : Type} {f : β → α → Option β} {b b' : β} {a : α}
    (h : f b a = some b') (l : List α) : (a :: l).foldlM f b = l.foldlM f b' := by
  rw [List.foldlM_cons, h]
  rfl

theorem foldlM_append_some {α β : Type} {f : β → α → Option β} {b b' : β} {l : List α}
    (h : l.foldlM f b = some b') (l' : List α) : (l ++ l').foldlM f b = l'.foldlM f b' := by
  rw [List.foldlM_append, h]
  rfl

/-- The characters stand for others in a text. -/
def Spells (s chars : List Char) : Prop :=
  ∀ before, s.foldlM TextReader.step ⟨.plain, before⟩ = some ⟨.plain, before ++ chars⟩

theorem Spells.nil : Spells [] [] := fun before => by simp

theorem Spells.append {s s' chars chars' : List Char} (h : Spells s chars)
    (h' : Spells s' chars') : Spells (s ++ s') (chars ++ chars') := by
  intro before
  rw [foldlM_append_some (h before), h', List.append_assoc]

theorem Spells.flatMap {f : Char → List Char} (hf : ∀ c, Spells (f c) [c]) (chars : List Char) :
    Spells (chars.flatMap f) chars := by
  induction chars with
  | nil => exact .nil
  | cons c chars ih => exact (hf c).append ih

theorem Spells.plain {c : Char} (hquote : c ≠ dquote) (hback : c ≠ backslash)
    (hc : 32 ≤ c.toNat) : Spells [c] [c] := by
  intro before
  simp [TextReader.step, hquote, hback, hc]

theorem Spells.escape {c e : Char} (hu : c ≠ 'u') (he : escaped c = some e) :
    Spells [backslash, c] [e] := by
  intro before
  simp [TextReader.step, show backslash ≠ dquote by decide, hu, he]

theorem hexValue_digitChar {d : ℕ} (h : d < 16) : hexValue (Nat.digitChar d) = some d := by
  have hall : ∀ d : Fin 16, hexValue (Nat.digitChar d) = some (d : ℕ) := by decide
  exact hall ⟨d, h⟩

/-- The four digits of a code unit. -/
theorem foldlM_unit {n : ℕ} (hn : n < 65536) (before : List Char) :
    ([n / 4096, n / 256, n / 16, n].map fun d => Nat.digitChar (d % 16)).foldlM TextReader.step
      ⟨.unit 0 3, before⟩ = some (TextReader.unit before n) := by
  have hvalue : 16 * (16 * (16 * (16 * 0 + n / 4096 % 16) + n / 256 % 16) + n / 16 % 16) + n % 16 =
      n := by omega
  simp only [List.map_cons, List.map_nil, List.foldlM_cons, List.foldlM_nil, TextReader.step,
    hexValue_digitChar (Nat.mod_lt _ (show 0 < 16 by decide)), Option.map_some, Option.bind_eq_bind,
    Option.bind_some, Option.pure_def, hvalue]

theorem foldlM_pairUnit {high n : ℕ} (hn : n < 65536) (before : List Char) :
    ([n / 4096, n / 256, n / 16, n].map fun d => Nat.digitChar (d % 16)).foldlM TextReader.step
      ⟨.pairUnit high 0 3, before⟩ =
        some ⟨.plain, before ++ [Char.ofNat (0x10000 + (high - 0xd800) * 1024 + (n - 0xdc00))]⟩ := by
  have hvalue : 16 * (16 * (16 * (16 * 0 + n / 4096 % 16) + n / 256 % 16) + n / 16 % 16) + n % 16 =
      n := by omega
  simp only [List.map_cons, List.map_nil, List.foldlM_cons, List.foldlM_nil, TextReader.step,
    hexValue_digitChar (Nat.mod_lt _ (show 0 < 16 by decide)), Option.map_some, Option.bind_eq_bind,
    Option.bind_some, Option.pure_def, hvalue]

/-- A code unit that is a character. -/
theorem Spells.unit {c : Char} (hc : c.toNat < 65536) :
    Spells (backslash :: 'u' :: [c.toNat / 4096, c.toNat / 256, c.toNat / 16, c.toNat].map
      fun d => Nat.digitChar (d % 16)) [c] := by
  intro before
  have hrange : ¬ (0xd800 ≤ c.toNat ∧ c.toNat < 0xdc00) := by
    rcases c.valid with h | h
    · have h' : c.toNat < 0xd800 := h
      omega
    · have h' : 0xdfff < c.toNat := h.1
      omega
  have hopen : TextReader.step ⟨.plain, before⟩ backslash = some ⟨.escape, before⟩ := by
    simp [TextReader.step, show backslash ≠ dquote by decide]
  have hu : TextReader.step ⟨.escape, before⟩ 'u' = some ⟨.unit 0 3, before⟩ := rfl
  have hunit : TextReader.unit before c.toNat = ⟨.plain, before ++ [c]⟩ := by
    rw [TextReader.unit, if_neg hrange, Char.ofNat_toNat]
  rw [foldlM_cons_some hopen, foldlM_cons_some hu, foldlM_unit hc, hunit]

/-- A pair of code units. -/
theorem Spells.pair {c : Char} (hc : 65536 ≤ c.toNat) {high low : ℕ}
    (hhigh : high = 0xd800 + (c.toNat - 65536) / 1024)
    (hlow : low = 0xdc00 + (c.toNat - 65536) % 1024) :
    Spells ((backslash :: 'u' :: [high / 4096, high / 256, high / 16, high].map
        fun d => Nat.digitChar (d % 16)) ++
      backslash :: 'u' :: [low / 4096, low / 256, low / 16, low].map
        fun d => Nat.digitChar (d % 16)) [c] := by
  intro before
  have hmax : c.toNat < 0x110000 := by
    rcases c.valid with h | h
    · have h' : c.toNat < 0xd800 := h
      omega
    · exact h.2
  have hopen : TextReader.step ⟨.plain, before⟩ backslash = some ⟨.escape, before⟩ := by
    simp [TextReader.step, show backslash ≠ dquote by decide]
  have hu : TextReader.step ⟨.escape, before⟩ 'u' = some ⟨.unit 0 3, before⟩ := rfl
  have hunit : TextReader.unit before high = ⟨.pair high, before⟩ := by
    rw [TextReader.unit, if_pos (by omega)]
  have hopen' : TextReader.step ⟨.pair high, before⟩ backslash =
      some ⟨.pairEscape high, before⟩ := rfl
  have hu' : TextReader.step ⟨.pairEscape high, before⟩ 'u' =
      some ⟨.pairUnit high 0 3, before⟩ := rfl
  have hvalue : 0x10000 + (high - 0xd800) * 1024 + (low - 0xdc00) = c.toNat := by omega
  have hfirst := (foldlM_cons_some hopen _).trans ((foldlM_cons_some hu _).trans
    (foldlM_unit (show high < 65536 by omega) before))
  rw [foldlM_append_some hfirst, hunit, foldlM_cons_some hopen', foldlM_cons_some hu',
    foldlM_pairUnit (by omega), hvalue, Char.ofNat_toNat]

/-! ## How values are read -/

/-- The reader has come to the end of a value. -/
def Reader.Holds (reader : Reader) (value : Value) (stack : List Frame) : Prop :=
  reader = ⟨.behind value, stack⟩ ∨ reader = ⟨.word [] value, stack⟩ ∨
    ∃ negative n, reader = ⟨.digits negative n, stack⟩ ∧ value = .int (signed negative n)

/-- Where a value is expected, the text is read as the value. -/
structure Reads (s : List Char) (value : Value) : Prop where
  opens : ∃ c t, s = c :: t ∧ ¬ isSpace c ∧ c ≠ ']'
  holds : ∀ stack, ∃ reader, s.foldlM Reader.step ⟨.value, stack⟩ = some reader ∧
    reader.Holds value stack

theorem Reader.Holds.step {reader : Reader} {value : Value} {stack : List Frame}
    (h : reader.Holds value stack) {c : Char} (hc : ¬ c.isDigit) :
    reader.step c = deliver value stack c := by
  rcases h with rfl | rfl | ⟨negative, n, rfl, rfl⟩
  · rfl
  · rfl
  · exact if_neg hc

theorem Reads.read {s : List Char} {value : Value} (h : Reads s value) : read s = some value := by
  obtain ⟨reader, hreader, hholds⟩ := h.holds []
  rw [Json.read, hreader]
  rcases hholds with rfl | rfl | ⟨negative, n, rfl, rfl⟩
  · rfl
  · rfl
  · rfl

theorem Reads.null : Reads ['n', 'u', 'l', 'l'] .null where
  opens := ⟨_, _, rfl, by decide, by decide⟩
  holds stack := ⟨⟨.word [] .null, stack⟩, rfl, .inr (.inl rfl)⟩

/-! ### Numbers -/

theorem foldlM_digits {ds : List Char} (hds : ∀ c ∈ ds, c.isDigit) (negative : Bool) (n : ℕ)
    (stack : List Frame) : ds.foldlM Reader.step ⟨.digits negative n, stack⟩ =
      some ⟨.digits negative (Nat.ofDigitChars 10 ds n), stack⟩ := by
  induction ds generalizing n with
  | nil => rfl
  | cons c ds ih =>
    rw [List.forall_mem_cons] at hds
    rw [foldlM_cons_some (if_pos hds.1), ih hds.2]
    rfl

theorem ne_of_isDigit {c d : Char} (hc : c.isDigit) (hd : ¬ d.isDigit) : c ≠ d := by
  rintro rfl
  exact hd hc

theorem not_isSpace_of_isDigit {c : Char} (hc : c.isDigit) : ¬ isSpace c := by
  simp [isSpace, ne_of_isDigit hc (show ¬ ' '.isDigit by decide),
    ne_of_isDigit hc (show ¬ '\t'.isDigit by decide),
    ne_of_isDigit hc (show ¬ '\n'.isDigit by decide),
    ne_of_isDigit hc (show ¬ '\r'.isDigit by decide)]

/-- A character that is a digit is none of those that begin another value. -/
theorem begin_digit {c : Char} (hc : c.isDigit) (stack : List Frame) :
    begin stack c = some ⟨.digits false (c.toNat - 48), stack⟩ := by
  have hne : ∀ d : Char, ¬ d.isDigit → c ≠ d := fun _ hd => ne_of_isDigit hc hd
  have hbrace : c.toNat ≠ 123 := by
    intro h
    rw [← Char.ofNat_toNat c, h] at hc
    exact absurd hc (by decide)
  simp [begin, not_isSpace_of_isDigit hc, hne dquote (by decide), hne '[' (by decide), hbrace,
    hne 'n' (by decide), hne 't' (by decide), hne 'f' (by decide), hne '-' (by decide), hc]

theorem foldlM_number {c : Char} {ds : List Char} (hds : ∀ d ∈ c :: ds, d.isDigit)
    {place : Place} {stack : List Frame} {negative : Bool}
    (hstep : Reader.step ⟨place, stack⟩ c = some ⟨.digits negative (c.toNat - 48), stack⟩) :
    (c :: ds).foldlM Reader.step ⟨place, stack⟩ =
      some ⟨.digits negative (Nat.ofDigitChars 10 (c :: ds) 0), stack⟩ := by
  rw [List.forall_mem_cons] at hds
  rw [foldlM_cons_some hstep, foldlM_digits hds.2, Nat.ofDigitChars_cons, Nat.mul_zero,
    Nat.zero_add]
  rfl

theorem exists_toDigits (n : ℕ) : ∃ c ds, Nat.toDigits 10 n = c :: ds ∧
    (∀ d ∈ c :: ds, d.isDigit) ∧ Nat.ofDigitChars 10 (c :: ds) 0 = n := by
  have hdigits := Text.isDigit_toDigits n
  have hvalue := Nat.ofDigitChars_ten_toDigits (n := n)
  cases h : Nat.toDigits 10 n with
  | nil => exact absurd h Nat.toDigits_ne_nil
  | cons c ds =>
    rw [h] at hdigits hvalue
    exact ⟨c, ds, rfl, hdigits, hvalue⟩

theorem Reads.int (i : ℤ) : Reads (toString i).toList (.int i) := by
  cases i with
  | ofNat n =>
    obtain ⟨c, ds, hds, hdigits, hvalue⟩ := exists_toDigits n
    have hc := hdigits c (List.mem_cons_self ..)
    rw [Int.ofNat_eq_natCast, Text.toList_toString_natCast, hds]
    refine ⟨⟨c, ds, rfl, not_isSpace_of_isDigit hc, ne_of_isDigit hc (by decide)⟩, fun stack => ?_⟩
    exact ⟨_, foldlM_number hdigits (begin_digit hc stack),
      .inr (.inr ⟨false, n, by rw [hvalue], rfl⟩)⟩
  | negSucc n =>
    obtain ⟨c, ds, hds, hdigits, hvalue⟩ := exists_toDigits (n + 1)
    rw [Text.toList_toString_negSucc, hds]
    refine ⟨⟨_, _, rfl, by decide, by decide⟩, fun stack => ?_⟩
    have hminus : Reader.step ⟨.value, stack⟩ '-' = some ⟨.minus, stack⟩ := rfl
    have hfirst : Reader.step ⟨.minus, stack⟩ c = some ⟨.digits true (c.toNat - 48), stack⟩ :=
      if_pos (hdigits c (List.mem_cons_self ..))
    refine ⟨_, (foldlM_cons_some hminus _).trans (foldlM_number hdigits hfirst),
      .inr (.inr ⟨true, n + 1, by rw [hvalue], rfl⟩)⟩

/-! ### Texts -/

/-- Between the quotes the reader of a text is at work. -/
theorem foldlM_text {s : List Char} {t t' : TextReader} (h : s.foldlM TextReader.step t = some t')
    (stack : List Frame) :
    s.foldlM Reader.step ⟨.text t, stack⟩ = some ⟨.text t', stack⟩ ∧
      ∀ entries, s.foldlM Reader.step ⟨.key entries t, stack⟩ = some ⟨.key entries t', stack⟩ := by
  induction s generalizing t with
  | nil =>
    obtain rfl := Option.some.inj h
    exact ⟨rfl, fun _ => rfl⟩
  | cons c s ih =>
    rw [List.foldlM_cons] at h
    cases hc : t.step c with
    | none =>
      rw [hc] at h
      cases h
    | some t₁ =>
      rw [hc] at h
      obtain ⟨htext, hkey⟩ := ih h
      have hquote : ¬ (t.place = .plain ∧ c = dquote) := by
        rintro ⟨hplace, rfl⟩
        rw [TextReader.step, hplace] at hc
        cases hc
      refine ⟨?_, fun entries => ?_⟩
      · rw [foldlM_cons_some (show Reader.step ⟨.text t, stack⟩ c = some ⟨.text t₁, stack⟩ by
          simp only [Reader.step, if_neg hquote, hc, Option.map_some]), htext]
      · rw [foldlM_cons_some (show Reader.step ⟨.key entries t, stack⟩ c =
          some ⟨.key entries t₁, stack⟩ by
            simp only [Reader.step, if_neg hquote, hc, Option.map_some]), hkey]

theorem Reads.text {s chars : List Char} (h : Spells s chars) :
    Reads (dquote :: s ++ [dquote]) (.text chars) where
  opens := ⟨_, _, rfl, by decide, by decide⟩
  holds stack := by
    refine ⟨⟨.behind (.text chars), stack⟩, ?_, .inl rfl⟩
    have hopen : Reader.step ⟨.value, stack⟩ dquote = some ⟨.text ⟨.plain, []⟩, stack⟩ := rfl
    have hclose : Reader.step ⟨.text ⟨.plain, chars⟩, stack⟩ dquote =
        some ⟨.behind (.text chars), stack⟩ := rfl
    have hread := (foldlM_text (h []) stack).1
    rw [List.nil_append] at hread
    rw [List.cons_append, foldlM_cons_some hopen, foldlM_append_some hread,
      foldlM_cons_some hclose]
    rfl

/-! ### Lists and objects -/

/-- What a reader that has opened a list does with the first character of an item. -/
theorem foldlM_first {s : List Char} {value : Value} (h : Reads s value) (stack : List Frame) :
    s.foldlM Reader.step ⟨.first, stack⟩ =
      s.foldlM Reader.step ⟨.value, .list [] :: stack⟩ := by
  obtain ⟨c, t, rfl, hspace, hbracket⟩ := h.opens
  have hstep : Reader.step ⟨.first, stack⟩ c = begin (.list [] :: stack) c := by
    simp only [Reader.step, if_neg hspace, if_neg hbracket]
  rw [List.foldlM_cons, List.foldlM_cons, hstep]
  rfl

/-- The items behind the first one. -/
theorem foldlM_items {texts : List (List Char)} {values : List Value}
    (h : List.Forall₂ Reads texts values) {stack : List Frame} :
    ∀ {items : List Value} {value : Value} {reader : Reader},
      reader.Holds value (.list items :: stack) →
      ∃ items' value' reader', items' ++ [value'] = items ++ value :: values ∧
        reader'.Holds value' (.list items' :: stack) ∧
        (texts.flatMap ([',', ' '] ++ ·)).foldlM Reader.step reader = some reader' := by
  induction h with
  | nil => exact fun hholds => ⟨_, _, _, rfl, hholds, rfl⟩
  | @cons s v texts values hs _ ih =>
    intro items value reader hholds
    have hcomma : reader.step ',' = some ⟨.value, .list (items ++ [value]) :: stack⟩ :=
      (hholds.step (by decide)).trans rfl
    have hspace : Reader.step ⟨.value, .list (items ++ [value]) :: stack⟩ ' ' =
        some ⟨.value, .list (items ++ [value]) :: stack⟩ := rfl
    obtain ⟨reader₁, hreader₁, hholds₁⟩ := hs.holds (.list (items ++ [value]) :: stack)
    obtain ⟨items', value', reader', heq, hholds', hread⟩ := ih hholds₁
    refine ⟨items', value', reader', by rw [heq]; simp, hholds', ?_⟩
    rw [List.flatMap_cons, List.append_assoc]
    show List.foldlM Reader.step reader (',' :: ' ' :: (s ++ _)) = _
    rw [foldlM_cons_some hcomma, foldlM_cons_some hspace, foldlM_append_some hreader₁, hread]

theorem Reads.list {texts : List (List Char)} {values : List Value}
    (h : List.Forall₂ Reads texts values) :
    Reads ('[' :: [',', ' '].intercalate texts ++ [']']) (.list values) where
  opens := ⟨_, _, rfl, by decide, by decide⟩
  holds stack := by
    have hopen : Reader.step ⟨.value, stack⟩ '[' = some ⟨.first, stack⟩ := rfl
    cases h with
    | nil => exact ⟨⟨.behind (.list []), stack⟩, rfl, .inl rfl⟩
    | @cons s v texts values hs htexts =>
      obtain ⟨reader₁, hreader₁, hholds₁⟩ := hs.holds (.list [] :: stack)
      obtain ⟨items, value, reader, heq, hholds, hread⟩ := foldlM_items htexts hholds₁
      have hclose : reader.step ']' = some ⟨.behind (.list (items ++ [value])), stack⟩ :=
        (hholds.step (by decide)).trans rfl
      refine ⟨⟨.behind (.list (v :: values)), stack⟩, ?_, .inl rfl⟩
      rw [PyCall.intercalate_cons_eq, List.cons_append, foldlM_cons_some hopen, List.append_assoc,
        List.foldlM_append, foldlM_first hs, hreader₁, Option.bind_eq_bind, Option.bind_some,
        foldlM_append_some hread, foldlM_cons_some hclose, heq]
      rfl

/-- An entry of an object as it is written. -/
def ReadsEntry (s : List Char) (entry : List Char × Value) : Prop :=
  ∃ key t, s = (dquote :: key ++ [dquote]) ++ ':' :: ' ' :: t ∧ Spells key entry.1 ∧
    Reads t entry.2

theorem ReadsEntry.foldlM {s : List Char} {entry : List Char × Value} (h : ReadsEntry s entry)
    {place : Place} {stack : List Frame} {entries : List (List Char × Value)}
    (hplace : Reader.step ⟨place, stack⟩ dquote = some ⟨.key entries ⟨.plain, []⟩, stack⟩) :
    ∃ reader, s.foldlM Reader.step ⟨place, stack⟩ = some reader ∧
      reader.Holds entry.2 (.dict entries entry.1 :: stack) := by
  obtain ⟨key, t, rfl, hkey, ht⟩ := h
  obtain ⟨reader, hreader, hholds⟩ := ht.holds (.dict entries entry.1 :: stack)
  have hread := (foldlM_text (hkey []) stack).2 entries
  rw [List.nil_append] at hread
  have hclose : Reader.step ⟨.key entries ⟨.plain, entry.1⟩, stack⟩ dquote =
      some ⟨.colon entries entry.1, stack⟩ := rfl
  have hcolon : Reader.step ⟨.colon entries entry.1, stack⟩ ':' =
      some ⟨.value, .dict entries entry.1 :: stack⟩ := rfl
  have hspace : Reader.step ⟨.value, .dict entries entry.1 :: stack⟩ ' ' =
      some ⟨.value, .dict entries entry.1 :: stack⟩ := rfl
  refine ⟨reader, ?_, hholds⟩
  rw [List.append_assoc, List.cons_append, foldlM_cons_some hplace, foldlM_append_some hread,
    List.singleton_append, foldlM_cons_some hclose, foldlM_cons_some hcolon,
    foldlM_cons_some hspace, hreader]

/-- The entries behind the first one. -/
theorem foldlM_entries {texts : List (List Char)} {more : List (List Char × Value)}
    (h : List.Forall₂ ReadsEntry texts more) {stack : List Frame} :
    ∀ {entries : List (List Char × Value)} {key : List Char} {value : Value} {reader : Reader},
      reader.Holds value (.dict entries key :: stack) →
      ∃ entries' key' value' reader',
        entries' ++ [(key', value')] = entries ++ (key, value) :: more ∧
        reader'.Holds value' (.dict entries' key' :: stack) ∧
        (texts.flatMap ([',', ' '] ++ ·)).foldlM Reader.step reader = some reader' := by
  induction h with
  | nil => exact fun hholds => ⟨_, _, _, _, rfl, hholds, rfl⟩
  | @cons s entry texts more hs _ ih =>
    intro entries key value reader hholds
    have hcomma : reader.step ',' = some ⟨.nextKey (entries ++ [(key, value)]), stack⟩ :=
      (hholds.step (by decide)).trans rfl
    have hspace : Reader.step ⟨.nextKey (entries ++ [(key, value)]), stack⟩ ' ' =
        some ⟨.nextKey (entries ++ [(key, value)]), stack⟩ := rfl
    have hquote : Reader.step ⟨.nextKey (entries ++ [(key, value)]), stack⟩ dquote =
        some ⟨.key (entries ++ [(key, value)]) ⟨.plain, []⟩, stack⟩ := rfl
    obtain ⟨reader₁, hreader₁, hholds₁⟩ := hs.foldlM hquote
    obtain ⟨entries', key', value', reader', heq, hholds', hread⟩ := ih hholds₁
    refine ⟨entries', key', value', reader', by rw [heq]; simp, hholds', ?_⟩
    rw [List.flatMap_cons, List.append_assoc]
    show List.foldlM Reader.step reader (',' :: ' ' :: (s ++ _)) = _
    rw [foldlM_cons_some hcomma, foldlM_cons_some hspace, foldlM_append_some hreader₁, hread]

theorem Reads.dict {texts : List (List Char)} {entries : List (List Char × Value)}
    (h : List.Forall₂ ReadsEntry texts entries) :
    Reads (Char.ofNat 123 :: [',', ' '].intercalate texts ++ [Char.ofNat 125]) (.dict entries) where
  opens := ⟨_, _, rfl, by decide, by decide⟩
  holds stack := by
    have hopen : Reader.step ⟨.value, stack⟩ (Char.ofNat 123) = some ⟨.firstKey, stack⟩ := rfl
    cases h with
    | nil => exact ⟨⟨.behind (.dict []), stack⟩, rfl, .inl rfl⟩
    | @cons s entry texts more hs htexts =>
      have hquote : Reader.step ⟨.firstKey, stack⟩ dquote =
          some ⟨.key [] ⟨.plain, []⟩, stack⟩ := rfl
      obtain ⟨reader₁, hreader₁, hholds₁⟩ := hs.foldlM hquote
      obtain ⟨entries', key, value, reader, heq, hholds, hread⟩ := foldlM_entries htexts hholds₁
      have hclose : reader.step (Char.ofNat 125) =
          some ⟨.behind (.dict (entries' ++ [(key, value)])), stack⟩ :=
        (hholds.step (by decide)).trans rfl
      refine ⟨⟨.behind (.dict (entry :: more)), stack⟩, ?_, .inl rfl⟩
      rw [PyCall.intercalate_cons_eq, List.cons_append, foldlM_cons_some hopen, List.append_assoc,
        foldlM_append_some hreader₁, foldlM_append_some hread, foldlM_cons_some hclose, heq]
      rfl

end Json
