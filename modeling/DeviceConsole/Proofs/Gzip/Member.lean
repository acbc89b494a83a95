import DeviceConsole.Proofs.Gzip.Blocks
import Mathlib.Data.List.TakeWhile

/-!
Decoding a compressed file.

`expand_eq_whole_iff`: a file is decoded as a whole content exactly if its first member holds that
content; a file that starts with no member ends in a fault (`exists_isFile_of_complete`). A file
starts with one member at most (`IsMember.unique`), so a member that is cut short is no file
(`not_isFile_of_cut`), and neither is one whose trailer does not fit its body (`IsFile.trailer`).
-/
namespace DeviceConsole.Gzip

/-! ### Numbers in bytes -/

@[simp] theorem length_lowBytes (count n : Nat) : (lowBytes count n).length = count := by
  induction count generalizing n with
  | zero => rfl
  | succ count ih => rw [lowBytes, List.length_cons, ih]

theorem number32_lowBytes (count n : Nat) : number32 (lowBytes count n) = n % 256 ^ count := by
  induction count generalizing n with
  | zero => exact (Nat.mod_one n).symm
  | succ count ih =>
    show n.toUInt8.toNat + 256 * number32 (lowBytes count (n / 256)) = _
    rw [ih, Nat.pow_succ', Nat.mod_mul]
    rfl

theorem lowBytes_number32 (bytes : List UInt8) : lowBytes bytes.length (number32 bytes) = bytes := by
  induction bytes with
  | nil => rfl
  | cons b bytes ih =>
    have hlow : number32 (b :: bytes) = b.toNat + 256 * number32 bytes := rfl
    have hb : b.toNat < 256 := b.toNat_lt
    have hdiv : (b.toNat + 256 * number32 bytes) / 256 = number32 bytes := by omega
    have hmod : (b.toNat + 256 * number32 bytes).toUInt8 = b := by
      apply UInt8.toNat_inj.1
      show (b.toNat + 256 * number32 bytes) % 256 = b.toNat
      omega
    rw [List.length_cons, lowBytes, hlow, hdiv, hmod, ih]

theorem lowBytes_mod (count n : Nat) : lowBytes count (n % 256 ^ count) = lowBytes count n := by
  have := lowBytes_number32 (lowBytes count n)
  rwa [number32_lowBytes, length_lowBytes] at this

/-- As many bytes say a number, as far as it fits, in one way. -/
theorem number32_eq_iff {bytes : List UInt8} {count n : Nat} (h : bytes.length = count) :
    number32 bytes = n % 256 ^ count ↔ bytes = lowBytes count n := by
  constructor
  · intro hn
    rw [← lowBytes_number32 bytes, h, hn, lowBytes_mod]
  · rintro rfl
    exact number32_lowBytes count n

/-! ### The header -/

/-- What a step over bytes steps over. -/
def Skips (skip : List UInt8 → Except Fault (List UInt8)) (IsPart : List UInt8 → Prop) : Prop :=
  ∀ bytes rest, skip bytes = .ok rest ↔ ∃ part, IsPart part ∧ bytes = part ++ rest

theorem skips_bytes (n : Nat) : Skips (skipBytes n) fun part => part.length = n := by
  intro bytes rest
  rw [skipBytes]
  by_cases h : bytes.length < n
  · rw [if_pos (by rw [List.length_take]; omega)]
    refine ⟨nofun, ?_⟩
    rintro ⟨part, rfl, rfl⟩
    rw [List.length_append] at h
    omega
  · rw [if_neg (by rw [List.length_take]; omega), Except.ok.injEq]
    constructor
    · rintro rfl
      exact ⟨bytes.take n, List.length_take_of_le (Nat.le_of_not_lt h),
        (List.take_append_drop n bytes).symm⟩
    · rintro ⟨part, rfl, rfl⟩
      exact List.drop_left

/-- Bytes before the first null. -/
theorem takeWhile_null {text : List UInt8} (h : 0 ∉ text) (rest : List UInt8) :
    (text ++ 0 :: rest).takeWhile (· != 0) = text := by
  have htext : ∀ b ∈ text, (b != 0) = true := by
    intro b hb
    exact bne_iff_ne.2 fun hzero => h (hzero ▸ hb)
  rw [List.takeWhile_append_of_pos htext]
  exact List.append_nil text

theorem skips_field : Skips skipField IsText := by
  intro bytes rest
  rw [skipField]
  by_cases hnull : 0 ∈ bytes
  · obtain ⟨text, more, rfl, htext⟩ := List.eq_append_cons_of_mem hnull
    simp only [takeWhile_null htext, List.drop_left]
    have hone : skipBytes 1 (0 :: more) = .ok more := rfl
    by_cases hlong : text.length > maxFieldLength
    · rw [if_pos hlong]
      refine ⟨nofun, ?_⟩
      rintro ⟨_, @⟨text', htext', hshort⟩, heq⟩
      rw [List.append_assoc] at heq
      have hsame := congrArg (List.takeWhile (· != 0)) heq
      rw [takeWhile_null htext, List.singleton_append, takeWhile_null htext'] at hsame
      exact absurd (hsame ▸ hshort) (Nat.not_le_of_lt hlong)
    · rw [if_neg hlong, hone, Except.ok.injEq]
      constructor
      · rintro rfl
        exact ⟨text ++ [0], .mk htext (Nat.le_of_not_lt hlong), by simp⟩
      · rintro ⟨_, @⟨text', htext', -⟩, heq⟩
        rw [List.append_assoc] at heq
        have hsame := congrArg (List.takeWhile (· != 0)) heq
        rw [takeWhile_null htext, List.singleton_append, takeWhile_null htext'] at hsame
        subst hsame
        exact (List.cons.inj (List.append_cancel_left heq)).2
  · have hall : bytes.takeWhile (· != 0) = bytes := by
      apply List.takeWhile_eq_self_iff.2
      intro b hb
      exact bne_iff_ne.2 fun hzero => hnull (hzero ▸ hb)
    simp only [hall, List.drop_length]
    constructor
    · intro h
      split at h <;> cases h
    · rintro ⟨_, ⟨htext, -⟩, rfl⟩
      simp at hnull

theorem number16_eq_ok_iff {bytes rest : List UInt8} {n : Nat} :
    number16 bytes = .ok (n, rest) ↔ n < 65536 ∧ bytes = lowBytes 2 n ++ rest := by
  have hvalue : ∀ low high : UInt8, number32 [low, high] = low.toNat + 256 * high.toNat := by
    intro low high
    rfl
  constructor
  · intro h
    match bytes with
    | [] | [_] => cases h
    | low :: high :: rest =>
      cases h
      have hlow : low.toNat < 256 := low.toNat_lt
      have hhigh : high.toNat < 256 := high.toNat_lt
      refine ⟨by omega, ?_⟩
      rw [← hvalue]
      have := lowBytes_number32 [low, high]
      rw [List.length_cons, List.length_singleton] at this
      rw [this]
      rfl
  · rintro ⟨hn, rfl⟩
    have hsame : number32 (lowBytes 2 n) = n :=
      (number32_lowBytes 2 n).trans (Nat.mod_eq_of_lt hn)
    show Except.ok (number32 (lowBytes 2 n), rest) = _
    rw [hsame]

theorem skips_extra :
    Skips (fun bytes => number16 bytes >>= fun p => skipBytes p.1 p.2) IsExtra := by
  intro bytes rest
  simp only [bind_eq_ok_iff]
  constructor
  · rintro ⟨⟨n, middle⟩, hnumber, hskip⟩
    obtain ⟨hn, rfl⟩ := number16_eq_ok_iff.1 hnumber
    obtain ⟨part, rfl, rfl⟩ := (skips_bytes n middle rest).1 hskip
    exact ⟨lowBytes 2 part.length ++ part, .mk hn, (List.append_assoc _ _ _).symm⟩
  · rintro ⟨_, @⟨part, hn⟩, rfl⟩
    rw [List.append_assoc]
    exact ⟨(part.length, part ++ rest), number16_eq_ok_iff.2 ⟨hn, rfl⟩,
      (skips_bytes _ _ _).2 ⟨part, rfl, rfl⟩⟩

/-- A part of a header that is skipped if its flag is set. -/
def skipIf (flags flag : UInt8) (skip : List UInt8 → Except Fault (List UInt8))
    (bytes : List UInt8) : Except Fault (List UInt8) :=
  if flags &&& flag = 0 then pure bytes else skip bytes

theorem Skips.skipIf {skip : List UInt8 → Except Fault (List UInt8)} {IsPart : List UInt8 → Prop}
    (h : Skips skip IsPart) (flags flag : UInt8) :
    Skips (skipIf flags flag skip) (IsOptional flags flag IsPart) := by
  intro bytes rest
  unfold Gzip.skipIf IsOptional
  by_cases hflag : flags &&& flag = 0
  · simp only [if_pos hflag]
    constructor
    · intro hok
      exact ⟨[], rfl, Except.ok.inj hok⟩
    · rintro ⟨_, rfl, rfl⟩
      rfl
  · simp only [if_neg hflag]
    exact h bytes rest

/-- The check of a header that starts with `front`. -/
def skipCheck (front bytes : List UInt8) : Except Fault (List UInt8) :=
  number16 bytes >>= fun p =>
    if p.1 = (checksum front).toNat % 65536 then pure p.2 else .error .checksumMismatch

theorem skips_check (front : List UInt8) :
    Skips (skipCheck front) (· = lowBytes 2 (checksum front).toNat) := by
  have hmod := lowBytes_mod 2 (checksum front).toNat
  intro bytes rest
  rw [skipCheck, bind_eq_ok_iff]
  constructor
  · rintro ⟨⟨n, middle⟩, hnumber, hok⟩
    obtain ⟨-, rfl⟩ := number16_eq_ok_iff.1 hnumber
    by_cases hn : n = (checksum front).toNat % 65536
    · rw [if_pos hn] at hok
      obtain rfl := Except.ok.inj hok
      rw [hn]
      exact ⟨_, hmod, rfl⟩
    · rw [if_neg hn] at hok
      cases hok
  · rintro ⟨_, rfl, rfl⟩
    refine ⟨((checksum front).toNat % 65536, rest), number16_eq_ok_iff.2 ⟨?_, ?_⟩, if_pos rfl⟩
    · exact Nat.mod_lt _ (by decide)
    · exact congrArg (· ++ rest) hmod.symm

theorem skipOptional_eq (flags : UInt8) (whole bytes : List UInt8) :
    skipOptional flags whole bytes =
      (skipIf flags hasExtra (fun bytes => number16 bytes >>= fun p => skipBytes p.1 p.2) bytes >>=
        fun bytes => skipIf flags hasName skipField bytes >>=
          fun bytes => skipIf flags hasComment skipField bytes >>=
            fun bytes => skipIf flags hasHeaderCheck
              (skipCheck (whole.take (whole.length - bytes.length))) bytes) := by
  unfold skipOptional skipIf
  by_cases hextra : flags &&& hasExtra = 0 <;> by_cases hname : flags &&& hasName = 0 <;>
    by_cases hcomment : flags &&& hasComment = 0 <;>
    simp only [hextra, hname, hcomment, if_true, if_false, bind_assoc] <;> rfl

/-- What stands behind the first bytes of a header. -/
theorem skipOptional_eq_ok_iff {flags : UInt8} {start bytes rest : List UInt8} :
    skipOptional flags (start ++ bytes) bytes = .ok rest ↔ ∃ extra name comment check,
      IsOptional flags hasExtra IsExtra extra ∧ IsOptional flags hasName IsText name ∧
      IsOptional flags hasComment IsText comment ∧
      IsOptional flags hasHeaderCheck
        (· = lowBytes 2 (checksum (start ++ extra ++ name ++ comment)).toNat) check ∧
      bytes = extra ++ (name ++ (comment ++ (check ++ rest))) := by
  have hfront : ∀ front bytes : List UInt8,
      (front ++ bytes).take ((front ++ bytes).length - bytes.length) = front := by
    intro front bytes
    rw [List.length_append, Nat.add_sub_cancel, List.take_left]
  have hcheck := fun front => (skips_check front).skipIf flags hasHeaderCheck
  have hextra := skips_extra.skipIf flags hasExtra
  have hname := skips_field.skipIf flags hasName
  have hcomment := skips_field.skipIf flags hasComment
  rw [skipOptional_eq]
  simp only [bind_eq_ok_iff]
  constructor
  · rintro ⟨bytes₁, h₁, bytes₂, h₂, bytes₃, h₃, h₄⟩
    obtain ⟨extra, hextra, rfl⟩ := (hextra _ _).1 h₁
    obtain ⟨name, hname, rfl⟩ := (hname _ _).1 h₂
    obtain ⟨comment, hcomment, rfl⟩ := (hcomment _ _).1 h₃
    simp only [← List.append_assoc, hfront] at h₄
    obtain ⟨check, hcheck, rfl⟩ := (hcheck _ _ _).1 h₄
    exact ⟨extra, name, comment, check, hextra, hname, hcomment, hcheck, rfl⟩
  · rintro ⟨extra, name, comment, check, hextra', hname', hcomment', hcheck', rfl⟩
    refine ⟨_, (hextra _ _).2 ⟨extra, hextra', rfl⟩, _, (hname _ _).2 ⟨name, hname', rfl⟩, _,
      (hcomment _ _).2 ⟨comment, hcomment', rfl⟩, ?_⟩
    have hsplit : start ++ (extra ++ (name ++ (comment ++ (check ++ rest)))) =
        (start ++ extra ++ name ++ comment) ++ (check ++ rest) := by simp
    rw [hsplit, hfront]
    exact (hcheck _ _ _).2 ⟨check, hcheck', rfl⟩

/-- The first bytes of a header decide whether it can be one. -/
theorem skipHeader_cons {first second method flags : UInt8} {times bytes : List UInt8}
    (htimes : times.length = 6) :
    skipHeader ([first, second, method, flags] ++ times ++ bytes) =
      if first = 0x1f ∧ second = 0x8b ∧ method = 8 ∧ flags &&& reservedFlags = 0 then
        skipOptional flags ([first, second, method, flags] ++ times ++ bytes) bytes
      else .error .badHeader := by
  obtain ⟨a, b, c, d, e, f, rfl⟩ : ∃ a b c d e f, times = [a, b, c, d, e, f] := by
    match times, htimes with
    | [a, b, c, d, e, f], _ => exact ⟨a, b, c, d, e, f, rfl⟩
  show (if (decide (first = 0x1f) && decide (second = 0x8b) && decide (method = 8) &&
    decide (flags &&& reservedFlags = 0)) = true then _ else _) = _
  simp only [Bool.and_eq_true, decide_eq_true_eq, and_assoc]
  rfl

/-- A header is skipped exactly where some bytes are next that are one. -/
theorem skips_header : Skips skipHeader IsHeader := by
  intro bytes rest
  constructor
  · intro h
    obtain ⟨first, second, method, flags, times, more, htimes, rfl⟩ :
        ∃ first second method flags times more, times.length = 6 ∧
          bytes = [first, second, method, flags] ++ times ++ more := by
      unfold skipHeader at h
      split at h
      · next first second method flags a b c d e f more =>
        exact ⟨first, second, method, flags, [a, b, c, d, e, f], more, rfl, rfl⟩
      · cases h
    rw [skipHeader_cons htimes] at h
    split at h
    · next hstart =>
      obtain ⟨rfl, rfl, rfl, hflags⟩ := hstart
      obtain ⟨extra, name, comment, check, hextra, hname, hcomment, hcheck, rfl⟩ :=
        skipOptional_eq_ok_iff.1 h
      exact ⟨_, .mk (.mk hflags htimes hextra hname hcomment) hcheck, by simp⟩
    · cases h
  · rintro ⟨_, @⟨flags, _, check, @⟨times, extra, name, comment, hflags, htimes, hextra, hname,
      hcomment⟩, hcheck⟩, rfl⟩
    have hsplit : [0x1f, 0x8b, 8, flags] ++ times ++ extra ++ name ++ comment ++ check ++ rest =
        [0x1f, 0x8b, 8, flags] ++ times ++ (extra ++ (name ++ (comment ++ (check ++ rest)))) := by
      simp
    rw [hsplit, skipHeader_cons htimes, if_pos ⟨rfl, rfl, rfl, hflags⟩]
    exact skipOptional_eq_ok_iff.2
      ⟨extra, name, comment, check, hextra, hname, hcomment, hcheck, rfl⟩

/-! ### The trailer -/

@[simp] theorem length_trailer (content : List UInt8) : (trailer content).length = 8 := by
  rw [trailer, List.length_append, length_lowBytes, length_lowBytes]

theorem eq_trailer_iff {content bytes : List UInt8} (h : bytes.length = 8) :
    bytes = trailer content ↔ number32 (bytes.take 4) = (checksum content).toNat ∧
      number32 (bytes.drop 4) = content.length % UInt32.size := by
  have hchecksum : (checksum content).toNat = (checksum content).toNat % 256 ^ 4 :=
    (Nat.mod_eq_of_lt (checksum content).toNat_lt).symm
  have htake : (bytes.take 4).length = 4 := by
    rw [List.length_take, h]
    rfl
  have hdrop : (bytes.drop 4).length = 4 := by rw [List.length_drop, h]
  rw [hchecksum, number32_eq_iff htake]
  show _ ↔ _ ∧ number32 (bytes.drop 4) = content.length % 256 ^ 4
  rw [number32_eq_iff hdrop]
  constructor
  · rintro rfl
    exact ⟨List.take_left' (length_lowBytes _ _), List.drop_left' (length_lowBytes _ _)⟩
  · rintro ⟨hfirst, hsecond⟩
    rw [trailer, ← hfirst, ← hsecond, List.take_append_drop]

theorem checkTrailer_eq_ok_iff {content bytes : List UInt8} :
    checkTrailer content bytes = .ok () ↔ trailer content <+: bytes := by
  rw [List.prefix_iff_eq_take, length_trailer, eq_comm (a := trailer content), checkTrailer]
  by_cases hshort : (bytes.take 8).length < 8
  · simp only [if_pos hshort]
    refine ⟨nofun, fun h => ?_⟩
    rw [h, length_trailer] at hshort
    exact absurd hshort (Nat.lt_irrefl 8)
  · have hlength : (bytes.take 8).length = 8 :=
      Nat.le_antisymm (List.length_take_le 8 bytes) (Nat.le_of_not_lt hshort)
    simp only [if_neg hshort, Bool.and_eq_true, decide_eq_true_eq]
    simp only [← eq_trailer_iff hlength]
    by_cases hsame : bytes.take 8 = trailer content
    · rw [if_pos hsame]
      exact iff_of_true rfl hsame
    · rw [if_neg hsame]
      exact iff_of_false nofun hsame

/-! ### The content -/

theorem expandBody_of_error {bytes : List UInt8} {output : Array UInt8} {halt : Halt}
    (h : inflate bytes = ⟨output, .error halt⟩) : (expandBody bytes).ending ≠ .complete := by
  rw [expandBody, h]
  cases halt <;> exact nofun

theorem expandBody_of_ok {bytes : List UInt8} {output : Array UInt8} {b : Bits}
    (h : inflate bytes = ⟨output, .ok b⟩) :
    expandBody bytes = match checkTrailer output.toList b.rest with
      | .ok () => .whole output.toList
      | .error fault => ⟨output.toList, .broken fault⟩ := by
  unfold expandBody
  generalize inflate bytes = inflated at h ⊢
  subst h
  rfl

/-- What stands behind a header and is decoded without a fault starts with a body and the trailer
that belongs to the content. -/
theorem exists_body_of_complete {bytes : List UInt8} (h : (expandBody bytes).ending = .complete) :
    ∃ body content rest, IsBody body content ∧ bytes = body ++ (trailer content ++ rest) := by
  obtain ⟨⟨output, outcome⟩, hinflate⟩ : ∃ inflated, inflate bytes = inflated := ⟨_, rfl⟩
  cases outcome with
  | error halt => exact absurd h (expandBody_of_error hinflate)
  | ok b =>
    rw [expandBody_of_ok hinflate] at h
    cases htrailer : checkTrailer output.toList b.rest with
    | error fault =>
      rw [htrailer] at h
      cases h
    | ok u =>
      obtain ⟨rest, hrest⟩ := checkTrailer_eq_ok_iff.1 htrailer
      obtain ⟨body, hbody, heq⟩ := inflate_eq_ok_iff.1 ⟨b, hinflate, rfl⟩
      exact ⟨body, output.toList, rest, hbody, by rw [heq, hrest]⟩

theorem expandBody_append {body content : List UInt8} (h : IsBody body content)
    (rest : List UInt8) : expandBody (body ++ (trailer content ++ rest)) = .whole content := by
  obtain ⟨b, hinflate, hrest⟩ := inflate_eq_ok_iff.2 ⟨body, h, rfl⟩
  have htrailer : checkTrailer content b.rest = .ok () :=
    checkTrailer_eq_ok_iff.2 ⟨rest, hrest.symm⟩
  rw [expandBody_of_ok hinflate, htrailer]

theorem expand_of_header {bytes body : List UInt8} (h : skipHeader bytes = .ok body) :
    expand (.whole bytes) = expandBody body := by
  simp only [expand, Stream.whole, h]

theorem expand_of_no_header {bytes : List UInt8} {fault : Fault}
    (h : skipHeader bytes = .error fault) : expand (.whole bytes) = .failing fault := by
  simp only [expand, Stream.whole, h]

/-- A file whose first member holds a content is decoded as that content. -/
theorem expand_of_isFile {bytes content : List UInt8} (h : IsFile bytes content) :
    expand (.whole bytes) = .whole content := by
  obtain ⟨_, rest, @⟨header, body, _, hheader, hbody⟩, rfl⟩ := h
  have hskip : skipHeader (header ++ body ++ trailer content ++ rest) =
      .ok (body ++ (trailer content ++ rest)) :=
    (skips_header _ _).2 ⟨header, hheader, by simp⟩
  rw [expand_of_header hskip]
  exact expandBody_append hbody rest

/-- What is decoded without a fault is a file whose first member holds a content. -/
theorem exists_isFile_of_complete {bytes : List UInt8}
    (h : (expand (.whole bytes)).ending = .complete) : ∃ content, IsFile bytes content := by
  cases hskip : skipHeader bytes with
  | error fault =>
    rw [expand_of_no_header hskip] at h
    cases h
  | ok body =>
    rw [expand_of_header hskip] at h
    obtain ⟨header, hheader, rfl⟩ := (skips_header _ _).1 hskip
    obtain ⟨body, content, rest, hbody, rfl⟩ := exists_body_of_complete h
    exact ⟨content, _, rest, .mk hheader hbody, by simp⟩

/-- A file is decoded as a whole content exactly if its first member holds that content. -/
theorem expand_eq_whole_iff {bytes content : List UInt8} :
    expand (.whole bytes) = .whole content ↔ IsFile bytes content := by
  refine ⟨fun h => ?_, expand_of_isFile⟩
  obtain ⟨content', hfile⟩ := exists_isFile_of_complete (congrArg Stream.ending h)
  have hcontent := congrArg Stream.bytes ((expand_of_isFile hfile).symm.trans h)
  rwa [show content' = content from hcontent] at hfile

/-! ### The first member -/

/-- A file starts with one header and one body at most. -/
theorem body_unique {header body content header' body' content' : List UInt8}
    (tail tail' : List UInt8) (hheader : IsHeader header) (hbody : IsBody body content)
    (hheader' : IsHeader header') (hbody' : IsBody body' content')
    (heq : header ++ (body ++ tail) = header' ++ (body' ++ tail')) :
    content = content' ∧ tail = tail' := by
  have hskip : skipHeader (header ++ (body ++ tail)) = .ok (body ++ tail) :=
    (skips_header _ _).2 ⟨header, hheader, rfl⟩
  have hskip' : skipHeader (header ++ (body ++ tail)) = .ok (body' ++ tail') :=
    (skips_header _ _).2 ⟨header', hheader', heq⟩
  have hsame := Except.ok.inj (hskip.symm.trans hskip')
  obtain ⟨b, hinflate, hrest⟩ := inflate_eq_ok_iff.2 ⟨body, hbody, Eq.refl (body ++ tail)⟩
  obtain ⟨b', hinflate', hrest'⟩ := inflate_eq_ok_iff.2 ⟨body', hbody', hsame⟩
  obtain ⟨hcontent, hb⟩ := Inflated.mk.inj (hinflate.symm.trans hinflate')
  refine ⟨by simpa using hcontent, ?_⟩
  rw [← hrest, ← hrest', Except.ok.inj hb]

/-- A file starts with one member at most. -/
theorem IsMember.unique {member content rest member' content' rest' : List UInt8}
    (h : IsMember member content) (h' : IsMember member' content')
    (heq : member ++ rest = member' ++ rest') : member = member' ∧ content = content' := by
  obtain @⟨header, body, _, hheader, hbody⟩ := h
  obtain @⟨header', body', _, hheader', hbody'⟩ := h'
  obtain ⟨rfl, htail⟩ := body_unique (trailer content ++ rest) (trailer content' ++ rest')
    hheader hbody hheader' hbody' (by simpa using heq)
  obtain rfl := List.append_cancel_left htail
  exact ⟨List.append_cancel_right heq, rfl⟩

/-- A member that is cut short is no file. -/
theorem not_isFile_of_cut {member content bytes cut : List UInt8} (h : IsMember member content)
    (hcut : cut ≠ []) (heq : member = bytes ++ cut) (content' : List UInt8) :
    ¬ IsFile bytes content' := by
  rintro ⟨member', rest, h', rfl⟩
  have hwhole : member ++ [] = member' ++ (rest ++ cut) := by rw [heq]; simp
  obtain ⟨rfl, -⟩ := h.unique h' hwhole
  have hnil := List.append_cancel_left hwhole
  exact hcut (List.append_eq_nil_iff.1 hnil.symm).2

/-- Behind a body stands the trailer that belongs to its content. -/
theorem IsFile.trailer {header body tail content content' : List UInt8} (hheader : IsHeader header)
    (hbody : IsBody body content) (h : IsFile (header ++ body ++ tail) content') :
    trailer content <+: tail := by
  obtain ⟨_, rest, @⟨header', body', _, hheader', hbody'⟩, heq⟩ := h
  obtain ⟨rfl, rfl⟩ := body_unique tail (Gzip.trailer content' ++ rest) hheader hbody hheader'
    hbody' (by simpa using heq)
  exact List.prefix_append _ _

end DeviceConsole.Gzip
