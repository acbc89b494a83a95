import DeviceConsole.Proofs.Gzip.Format
import DeviceConsole.Proofs.Success

/-!
Reading bits.

A place in a body is known from the bits that are left (`Bits.toList`), as long as less than a whole
byte has been started. So what a reader of bits does is told by the texts of bits that it takes for
each value: it `Parses` a relation if it succeeds exactly where such a text is next, and then stands
behind it. Readers in a row parse texts in a row (`Parses.bind`).
-/
namespace DeviceConsole.Gzip

variable {α β : Type}

/-! ### Bits of bytes -/

@[simp] theorem Bits.length_ofByte (b : UInt8) : (Bits.ofByte b).length = 8 := by
  simp [Bits.ofByte]

theorem Bits.ofByte_injective {a b : UInt8} (h : Bits.ofByte a = Bits.ofByte b) : a = b := by
  apply UInt8.toNat_inj.1
  apply Nat.eq_of_testBit_eq
  intro i
  by_cases hi : i < 8
  · have := congrArg (·[i]?) h
    simpa [Bits.ofByte, hi] using this
  · have hle : 2 ^ 8 ≤ 2 ^ i := Nat.pow_le_pow_right (by decide) (Nat.le_of_not_lt hi)
    rw [Nat.testBit_lt_two_pow (Nat.lt_of_lt_of_le a.toNat_lt hle),
      Nat.testBit_lt_two_pow (Nat.lt_of_lt_of_le b.toNat_lt hle)]

@[simp] theorem bitsOf_cons (b : UInt8) (bytes : List UInt8) :
    bitsOf (b :: bytes) = Bits.ofByte b ++ bitsOf bytes := rfl

@[simp] theorem bitsOf_append (bytes bytes' : List UInt8) :
    bitsOf (bytes ++ bytes') = bitsOf bytes ++ bitsOf bytes' := List.flatMap_append

@[simp] theorem length_bitsOf (bytes : List UInt8) : (bitsOf bytes).length = 8 * bytes.length := by
  induction bytes with
  | nil => rfl
  | cons b bytes ih => simp [ih]; omega

theorem bitsOf_injective {bytes bytes' : List UInt8} (h : bitsOf bytes = bitsOf bytes') :
    bytes = bytes' := by
  have hlength : bytes.length = bytes'.length := by
    have := congrArg List.length h
    rw [length_bitsOf, length_bitsOf] at this
    exact Nat.eq_of_mul_eq_mul_left (by decide) this
  induction bytes generalizing bytes' with
  | nil => exact (List.eq_nil_of_length_eq_zero hlength.symm).symm
  | cons b bytes ih =>
    cases bytes' with
    | nil => cases hlength
    | cons b' bytes' =>
      obtain ⟨hb, hbytes⟩ := List.append_inj h (by simp)
      rw [Bits.ofByte_injective hb, ih hbytes (Nat.succ.inj hlength)]

/-! ### Places -/

namespace Bits

/-- Less than a whole byte has been started. -/
def Proper (b : Bits) : Prop := b.started.length < 8

/-- The bits that are left. -/
def toList (b : Bits) : List Bool := b.started ++ bitsOf b.rest

theorem length_toList (b : Bits) : b.toList.length = b.started.length + 8 * b.rest.length := by
  simp [toList]

/-- A place is known from the bits that are left. -/
theorem toList_injective {b b' : Bits} (hb : b.Proper) (hb' : b'.Proper)
    (h : b.toList = b'.toList) : b = b' := by
  have hlength := congrArg List.length h
  rw [length_toList, length_toList] at hlength
  unfold Proper at hb hb'
  obtain ⟨hstarted, hrest⟩ := List.append_inj h (by omega)
  obtain ⟨started, rest⟩ := b
  obtain ⟨started', rest'⟩ := b'
  obtain rfl : started = started' := hstarted
  obtain rfl : rest = rest' := bitsOf_injective hrest
  rfl

/-- There is a place behind every bit. -/
theorem exists_of_cons {b : Bits} (hb : b.Proper) {x : Bool} {bits : List Bool}
    (h : b.toList = x :: bits) :
    ∃ b' : Bits, b'.Proper ∧ b'.toList = bits ∧ b.next = .ok (x, b') := by
  obtain ⟨started, rest⟩ := b
  cases started with
  | cons y started =>
    obtain ⟨rfl, rfl⟩ := List.cons.inj h
    exact ⟨⟨started, rest⟩, Nat.lt_of_succ_lt hb, rfl, rfl⟩
  | nil =>
    cases rest with
    | nil => cases h
    | cons u rest =>
      obtain ⟨y, started, hu⟩ := List.exists_cons_of_length_pos (l := ofByte u) (by simp)
      have hlength : started.length + 1 = 8 := by rw [← length_ofByte u, hu]; rfl
      simp only [toList, List.nil_append, bitsOf_cons, hu, List.cons_append] at h
      obtain ⟨rfl, rfl⟩ := List.cons.inj h
      refine ⟨⟨started, rest⟩, ?_, rfl, ?_⟩
      · show started.length < 8
        omega
      · simp only [next, hu]

theorem exists_of_append {b : Bits} (hb : b.Proper) {bits rest : List Bool}
    (h : b.toList = bits ++ rest) : ∃ b' : Bits, b'.Proper ∧ b'.toList = rest := by
  induction bits generalizing b with
  | nil => exact ⟨b, hb, h⟩
  | cons x bits ih =>
    obtain ⟨b', hb', hbits, -⟩ := exists_of_cons hb h
    exact ih hb' hbits

/-- Between two texts of bits that lead from one place to another there is a place. -/
theorem exists_between {b b' : Bits} (hb : b.Proper) {front back : List Bool}
    (h : b.toList = front ++ back ++ b'.toList) :
    ∃ middle : Bits, middle.Proper ∧ b.toList = front ++ middle.toList ∧
      middle.toList = back ++ b'.toList := by
  rw [List.append_assoc] at h
  obtain ⟨middle, hmiddle, hback⟩ := exists_of_append hb h
  exact ⟨middle, hmiddle, by rw [h, hback], hback⟩

end Bits

/-! ### What readers of bits take -/

/-- The reader succeeds where a text of bits for a value is next, and stands behind it then. -/
def Parses (read : Bits → Except Halt (α × Bits)) (Says : α → List Bool → Prop) : Prop :=
  ∀ b a b', b.Proper → (read b = .ok (a, b') ↔
    b'.Proper ∧ ∃ bits, Says a bits ∧ b.toList = bits ++ b'.toList)

theorem Parses.congr {read : Bits → Except Halt (α × Bits)} {Says Says' : α → List Bool → Prop}
    (h : Parses read Says) (hbits : ∀ a bits, Says a bits ↔ Says' a bits) : Parses read Says' := by
  intro b a b' hb
  simp only [h b a b' hb, hbits]

theorem parses_pure (a : α) : Parses (fun b => pure (a, b)) fun a' bits => a' = a ∧ bits = [] := by
  intro b a' b' hb
  constructor
  · intro h
    obtain ⟨rfl, rfl⟩ := Prod.mk.inj (Except.ok.inj h)
    exact ⟨hb, [], ⟨rfl, rfl⟩, rfl⟩
  · rintro ⟨hb', bits, ⟨rfl, rfl⟩, h⟩
    rw [Bits.toList_injective hb hb' h]
    rfl

theorem parses_error (halt : Halt) : Parses (fun _ => .error halt) fun (_ : α) _ => False := by
  intro b a b' _
  constructor
  · intro h
    cases h
  · rintro ⟨-, bits, ⟨⟩, -⟩

theorem parses_next : Parses Bits.next fun x bits => bits = [x] := by
  intro b x b' hb
  constructor
  · intro h
    cases hlist : b.toList with
    | nil =>
      -- no bit is left, so there was none to take
      have hlength := congrArg List.length hlist
      rw [Bits.length_toList] at hlength
      obtain ⟨started, rest⟩ := b
      cases started with
      | cons y started => simp at hlength
      | nil =>
        cases rest with
        | cons u rest => simp at hlength
        | nil => cases h
    | cons y bits =>
      obtain ⟨b'', hb'', rfl, hnext⟩ := Bits.exists_of_cons hb hlist
      rw [hnext] at h
      obtain ⟨rfl, rfl⟩ := Prod.mk.inj (Except.ok.inj h)
      exact ⟨hb'', [y], rfl, rfl⟩
  · rintro ⟨hb', bits, rfl, h⟩
    obtain ⟨b'', hb'', hlist, hnext⟩ := Bits.exists_of_cons hb h
    rw [hnext, Bits.toList_injective hb'' hb' hlist]

/-- Readers in a row parse texts in a row. What the second one parses matters only for values that
the first one can give. -/
theorem Parses.bind {read : Bits → Except Halt (α × Bits)} {Says : α → List Bool → Prop}
    {g : α → Bits → Except Halt (β × Bits)} {T : α → β → List Bool → Prop}
    (h : Parses read Says) (hg : ∀ a bits, Says a bits → Parses (g a) (T a)) :
    Parses (fun b => read b >>= fun p => g p.1 p.2) fun c bits =>
      ∃ a front back, Says a front ∧ T a c back ∧ bits = front ++ back := by
  intro b c b' hb
  rw [bind_eq_ok_iff]
  constructor
  · rintro ⟨⟨a, middle⟩, hread, hrest⟩
    obtain ⟨hmiddle, front, hfront, heq⟩ := (h b a middle hb).1 hread
    obtain ⟨hb', back, hback, heq'⟩ := (hg a front hfront middle c b' hmiddle).1 hrest
    refine ⟨hb', front ++ back, ⟨a, front, back, hfront, hback, rfl⟩, ?_⟩
    rw [heq, heq', List.append_assoc]
  · rintro ⟨hb', bits, ⟨a, front, back, hfront, hback, rfl⟩, heq⟩
    obtain ⟨middle, hmiddle, heq, heq'⟩ := Bits.exists_between hb heq
    exact ⟨(a, middle), (h b a middle hb).2 ⟨hmiddle, front, hfront, heq⟩,
      (hg a front hfront middle c b' hmiddle).2 ⟨hb', back, hback, heq'⟩⟩

/-- What is read can be made into something else. -/
theorem Parses.map {read : Bits → Except Halt (α × Bits)} {Says : α → List Bool → Prop}
    (h : Parses read Says) (f : α → β) :
    Parses (fun b => read b >>= fun p => pure (f p.1, p.2)) fun c bits =>
      ∃ a, Says a bits ∧ c = f a := by
  refine (h.bind fun a _ _ => parses_pure (f a)).congr fun c bits => ?_
  constructor
  · rintro ⟨a, front, back, hfront, ⟨rfl, rfl⟩, rfl⟩
    exact ⟨a, (List.append_nil front).symm ▸ hfront, rfl⟩
  · rintro ⟨a, h, rfl⟩
    exact ⟨a, bits, [], h, ⟨rfl, rfl⟩, (List.append_nil bits).symm⟩

theorem parses_number (n : Nat) : Parses (Bits.number n) (IsField n) := by
  induction n with
  | zero =>
    refine (parses_pure 0).congr fun a bits => ?_
    constructor
    · rintro ⟨rfl, rfl⟩
      exact ⟨rfl, rfl⟩
    · intro h
      obtain rfl := List.eq_nil_of_length_eq_zero h.length
      exact ⟨h.value.symm, rfl⟩
  | succ n ih =>
    refine (parses_next.bind fun x _ _ => ih.map (x.toNat + 2 * ·)).congr fun a bits => ?_
    constructor
    · rintro ⟨x, front, field, rfl, ⟨high, h, rfl⟩, rfl⟩
      exact ⟨congrArg Nat.succ h.length, congrArg (x.toNat + 2 * ·) h.value⟩
    · intro h
      cases bits with
      | nil => cases h.length
      | cons x field =>
        have hfield : IsField n (lowFirst field) field := ⟨Nat.succ.inj h.length, rfl⟩
        exact ⟨x, [x], field, rfl, ⟨_, hfield, h.value.symm⟩, rfl⟩

end DeviceConsole.Gzip
