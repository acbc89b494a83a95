import DeviceConsole.Stream
import Mathlib.Data.List.Forall2

/-!
The grammar of JSON documents, as bytes.

It is given apart from how a document is read or written, so that both can be held against it. What
stands between two brackets or braces is cut into its entries without regard to what they are
(`Enclosed`); then an entry of a list is a value and one of an object is a name with a value
(`IsValue`). A quoted text may be well formed without standing for a text, since it need not pair its
surrogates (`IsQuoted`); what it stands for if it does is said apart (`Spells`).
-/
namespace DeviceConsole.Json

/-- Blanks, which may stand between the parts of a value. -/
def Blanks (bytes : List UInt8) : Prop :=
  ∀ b ∈ bytes, b ∈ [0x20, 0x09, 0x0a, 0x0d]

/-! ### Numbers -/

def IsDigit (b : UInt8) : Prop := 0x30 ≤ b ∧ b ≤ 0x39

/-- One digit or more. -/
structure Digits (bytes : List UInt8) : Prop where
  nonempty : bytes ≠ []
  digits : ∀ b ∈ bytes, IsDigit b

/-- The digits in front of the point. Only a single one may be a zero in front. -/
inductive Whole : List UInt8 → Prop
  | zero : Whole [0x30]
  | digits {b : UInt8} {bytes : List UInt8} (hb : IsDigit b) (hzero : b ≠ 0x30)
      (h : ∀ d ∈ bytes, IsDigit d) : Whole (b :: bytes)

inductive Fraction : List UInt8 → Prop
  | absent : Fraction []
  | present {bytes : List UInt8} (h : Digits bytes) : Fraction (0x2e :: bytes)

inductive Exponent : List UInt8 → Prop
  | absent : Exponent []
  | unsigned {e : UInt8} {bytes : List UInt8} (he : e = 0x65 ∨ e = 0x45) (h : Digits bytes) :
      Exponent (e :: bytes)
  | signed {e sign : UInt8} {bytes : List UInt8} (he : e = 0x65 ∨ e = 0x45)
      (hsign : sign = 0x2b ∨ sign = 0x2d) (h : Digits bytes) : Exponent (e :: sign :: bytes)

inductive IsNumber : List UInt8 → Prop
  | positive {whole fraction exponent : List UInt8} (hw : Whole whole) (hf : Fraction fraction)
      (he : Exponent exponent) : IsNumber (whole ++ (fraction ++ exponent))
  | negative {whole fraction exponent : List UInt8} (hw : Whole whole) (hf : Fraction fraction)
      (he : Exponent exponent) : IsNumber (0x2d :: (whole ++ (fraction ++ exponent)))

/-! ### Texts -/

/-- A byte that stands for itself between quotes. -/
structure IsPlain (b : UInt8) : Prop where
  printing : 0x20 ≤ b
  notQuote : b ≠ 0x22
  notBackslash : b ≠ 0x5c

/-- The letters that may stand behind a backslash, and the bytes they stand for. -/
def letters : List (UInt8 × UInt8) :=
  [(0x22, 0x22), (0x5c, 0x5c), (0x2f, 0x2f), (0x62, 0x08), (0x66, 0x0c), (0x6e, 0x0a),
   (0x72, 0x0d), (0x74, 0x09)]

/-- A hexadecimal digit and its value. -/
inductive HexDigit : UInt8 → Nat → Prop
  | decimal {n : Nat} (h : n < 10) : HexDigit (UInt8.ofNat (0x30 + n)) n
  | lower {n : Nat} (h : n < 6) : HexDigit (UInt8.ofNat (0x61 + n)) (10 + n)
  | upper {n : Nat} (h : n < 6) : HexDigit (UInt8.ofNat (0x41 + n)) (10 + n)

/-- Four hexadecimal digits and the code unit they stand for. -/
inductive HexUnit : List UInt8 → Nat → Prop
  | mk {b₁ b₂ b₃ b₄ : UInt8} {n₁ n₂ n₃ n₄ : Nat} (h₁ : HexDigit b₁ n₁) (h₂ : HexDigit b₂ n₂)
      (h₃ : HexDigit b₃ n₃) (h₄ : HexDigit b₄ n₄) :
      HexUnit [b₁, b₂, b₃, b₄] (((n₁ * 16 + n₂) * 16 + n₃) * 16 + n₄)

/-- What may stand between quotes. -/
inductive Body : List UInt8 → Prop
  | nothing : Body []
  | plain {b : UInt8} {rest : List UInt8} (h : IsPlain b) (hrest : Body rest) : Body (b :: rest)
  | letter {b out : UInt8} {rest : List UInt8} (h : (b, out) ∈ letters) (hrest : Body rest) :
      Body (0x5c :: b :: rest)
  | unit {hex rest : List UInt8} {n : Nat} (h : HexUnit hex n) (hrest : Body rest) :
      Body (0x5c :: 0x75 :: (hex ++ rest))

/-- What may stand between quotes, and the bytes of the text it stands for. A code unit that is no
surrogate stands for its character, and so do two that are a pair of surrogates. -/
inductive Spells : List UInt8 → List UInt8 → Prop
  | nothing : Spells [] []
  | plain {b : UInt8} {rest out : List UInt8} (h : IsPlain b) (hrest : Spells rest out) :
      Spells (b :: rest) (b :: out)
  | letter {b o : UInt8} {rest out : List UInt8} (h : (b, o) ∈ letters)
      (hrest : Spells rest out) : Spells (0x5c :: b :: rest) (o :: out)
  | unit {hex rest out : List UInt8} {n : Nat} (h : HexUnit hex n) (hn : n < 0xd800 ∨ 0xdfff < n)
      (hrest : Spells rest out) :
      Spells (0x5c :: 0x75 :: (hex ++ rest)) (String.utf8EncodeChar (Char.ofNat n) ++ out)
  | pair {hex hex' rest out : List UInt8} {n n' : Nat} (h : HexUnit hex n) (h' : HexUnit hex' n')
      (hn : 0xd800 ≤ n ∧ n ≤ 0xdbff) (hn' : 0xdc00 ≤ n' ∧ n' ≤ 0xdfff)
      (hrest : Spells rest out) :
      Spells (0x5c :: 0x75 :: (hex ++ 0x5c :: 0x75 :: (hex' ++ rest)))
        (String.utf8EncodeChar (Char.ofNat ((n - 0xd800) * 0x400 + (n' - 0xdc00) + 0x10000)) ++ out)

/-- A quoted text. -/
inductive IsQuoted : List UInt8 → Prop
  | mk {body : List UInt8} (h : Body body) : IsQuoted (0x22 :: (body ++ [0x22]))

/-- A quoted text that stands for `s`. -/
inductive Quotes : List UInt8 → String → Prop
  | mk {body : List UInt8} {s : String} (h : Spells body (Stream.bytesOf s)) :
      Quotes (0x22 :: (body ++ [0x22])) s

/-! ### Containers -/

/-- Entries, each behind a comma, up to the closing byte of their container. -/
inductive Entries (close : UInt8) : List (List UInt8) → List UInt8 → Prop
  | nil {blanks : List UInt8} (h : Blanks blanks) : Entries close [] (blanks ++ [close])
  | cons {blanks lead entry rest : List UInt8} {entries : List (List UInt8)} (h : Blanks blanks)
      (hlead : Blanks lead) (hrest : Entries close entries rest) :
      Entries close (entry :: entries) (blanks ++ 0x2c :: (lead ++ (entry ++ rest)))

/-- The entries of a container from behind its opening byte. -/
inductive Enclosed (close : UInt8) : List (List UInt8) → List UInt8 → Prop
  | nil {blanks : List UInt8} (h : Blanks blanks) : Enclosed close [] (blanks ++ [close])
  | cons {lead entry rest : List UInt8} {entries : List (List UInt8)} (hlead : Blanks lead)
      (hrest : Entries close entries rest) :
      Enclosed close (entry :: entries) (lead ++ (entry ++ rest))

/-- What stands behind the name of a member, with its value. -/
inductive Assigns : List UInt8 → List UInt8 → Prop
  | mk {blanks lead value : List UInt8} (h : Blanks blanks) (hlead : Blanks lead) :
      Assigns value (blanks ++ 0x3a :: (lead ++ value))

/-- A member with its name and its value. -/
inductive IsMember : List UInt8 × List UInt8 → List UInt8 → Prop
  | mk {name value assigned : List UInt8} (h : Assigns value assigned) :
      IsMember (name, value) (name ++ assigned)

/-! ### Values -/

/-- The three words: `null`, `true` and `false`. -/
def words : List (List UInt8) :=
  [[0x6e, 0x75, 0x6c, 0x6c], [0x74, 0x72, 0x75, 0x65], [0x66, 0x61, 0x6c, 0x73, 0x65]]

/-- A well-formed value of any kind. -/
inductive IsValue : List UInt8 → Prop
  | word {bytes : List UInt8} (h : bytes ∈ words) : IsValue bytes
  | number {bytes : List UInt8} (h : IsNumber bytes) : IsValue bytes
  | text {bytes : List UInt8} (h : IsQuoted bytes) : IsValue bytes
  | list {items : List (List UInt8)} {bytes : List UInt8} (h : Enclosed 0x5d items bytes)
      (hitems : ∀ item ∈ items, IsValue item) : IsValue (0x5b :: bytes)
  | object {members : List (List UInt8 × List UInt8)} {entries : List (List UInt8)}
      {bytes : List UInt8} (h : Enclosed 0x7d entries bytes)
      (hentries : List.Forall₂ IsMember members entries)
      (hnames : ∀ m ∈ members, IsQuoted m.1) (hvalues : ∀ m ∈ members, IsValue m.2) :
      IsValue (0x7b :: bytes)

/-! ### Laws -/

theorem blanks_nil : Blanks [] := fun _ h => absurd h List.not_mem_nil

theorem Spells.body {bytes out : List UInt8} (h : Spells bytes out) : Body bytes := by
  induction h with
  | nothing => exact .nothing
  | plain h _ ih => exact .plain h ih
  | letter h _ ih => exact .letter h ih
  | unit h _ _ ih => exact .unit h ih
  | pair h h' _ _ _ ih => exact .unit h (.unit h' ih)

theorem Quotes.isQuoted {bytes : List UInt8} {s : String} (h : Quotes bytes s) : IsQuoted bytes := by
  obtain ⟨h⟩ := h
  exact .mk h.body

end DeviceConsole.Json
