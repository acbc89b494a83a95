import DeviceConsole.Json.Reader
import DeviceConsole.Proofs.Json.Scanning

/-!
Readers never lose sight of how a document ends.

Whatever a reader gives, the cursor behind it still knows the ending of the document (`Keeps`). So
when `document` has found the end there is nothing behind it: a document that is read is a complete
one (`complete_of_document`), whatever part of it the reader had a use for.
-/
namespace DeviceConsole.Json

variable {α σ : Type} {e : Ending} {c : Cursor}

/-- A computation that gives a cursor in a document with the ending `e`. -/
abbrev GivesIn (e : Ending) (x : Except Failure (α × Cursor)) : Prop :=
  Gives x fun p => p.2.ending = e

/-- A reader that stays in its document. -/
def Keeps (r : Reader α) : Prop := ∀ {e c}, c.ending = e → GivesIn e (r c)

/-! ### Cursors -/

theorem gives_fail (c : Cursor) (cause : Cause) (P : α → Prop) : Gives (c.fail cause) P := nofun

theorem gives_fail_bind {β : Type} (c : Cursor) (cause : Cause) (f : α → Except Failure β)
    (P : β → Prop) : Gives (c.fail cause >>= f) P := nofun

theorem gives_next? (hc : c.ending = e) :
    Gives c.next? fun step => ∀ p, step = some p → p.2.ending = e := by
  subst hc
  obtain ⟨rest, ending, place⟩ := c
  cases rest with
  | cons b rest =>
    apply gives_pure
    intro p hp
    obtain rfl := Option.some.inj hp
    rfl
  | nil =>
    cases ending with
    | complete => exact gives_pure nofun
    | broken fault => exact gives_error _ _

theorem gives_next (hc : c.ending = e) (cause : Cause) : GivesIn e (c.next cause) :=
  (gives_next? hc).bind fun step hstep => by
    cases step with
    | none => exact gives_fail c cause _
    | some p => exact gives_pure (hstep p rfl)

theorem gives_word (bytes : List UInt8) (hc : c.ending = e) :
    Gives (c.word bytes) fun after => after.ending = e := by
  induction bytes generalizing c with
  | nil => exact gives_pure hc
  | cons b bytes ih =>
    exact (gives_next hc _).bind fun p hp => gives_ite (ih hp) (gives_fail _ _ _)

theorem gives_valueStart (hc : c.ending = e) :
    Gives (valueStart c) fun p => p.1.ending = e ∧ p.2.2.ending = e :=
  (gives_next (c := c.skipSpaces) hc _).bind fun _ hp => gives_pure ⟨hc, hp⟩

theorem gives_colon (hc : c.ending = e) : Gives (colon c) fun after => after.ending = e :=
  (gives_next (c := c.skipSpaces) hc _).bind fun _ hp => gives_ite (gives_pure hp) (gives_fail _ _ _)

/-! ### Texts and numbers -/

theorem givesIn_run (exact : Bool) (state : Quotation.State) (out : List (UInt8 × Position))
    (place : Position) (bytes : List UInt8) :
    GivesIn e (Quotation.run exact e state out place bytes) := by
  induction bytes generalizing state out place with
  | nil =>
    unfold Quotation.run
    cases e <;> exact gives_error _ _
  | cons b bytes ih =>
    unfold Quotation.run
    split
    · exact ih _ _ _
    · exact gives_pure rfl
    · exact gives_error _ _

theorem keeps_text : Keeps text := by
  intro e c hc
  subst hc
  refine (givesIn_run true .plain [] c.place c.rest).bind fun p hp => ?_
  dsimp only
  split
  · exact gives_pure hp
  · exact gives_error _ _

theorem gives_skipText (hc : c.ending = e) : Gives (skipText c) fun after => after.ending = e := by
  subst hc
  exact (givesIn_run false .plain [] c.place c.rest).bind fun _ hp => gives_pure hp

namespace Number

/-- What holds of every float in a document with the ending `e`, wherever it has been read to. -/
def HoldsOfReals (e : Ending) (P : Number × Cursor → Prop) : Prop :=
  ∀ x c, c.ending = e → P (.real x, c)

theorem holdsOfReals_ending (e : Ending) : HoldsOfReals e fun p => p.2.ending = e :=
  fun _ _ hc => hc

section Reals
variable {P : Number × Cursor → Prop} (hP : HoldsOfReals e P)
include hP

theorem gives_ofParts (negative : Bool) (significand : Nat) (exponent : Int)
    (hc : c.ending = e) : Gives (ofParts negative significand exponent c) P := by
  unfold ofParts
  split
  · exact gives_pure (hP _ _ hc)
  · exact gives_fail _ _ _

theorem gives_exponentDigits (negative : Bool) (significand : Nat) (start : Int) (down : Bool)
    (exponent : Nat) (place : Position) (bytes : List UInt8) :
    Gives (exponentDigits negative significand start down e exponent place bytes) P := by
  induction bytes generalizing exponent place with
  | nil => exact (gives_next? rfl).bind fun _ _ => gives_ofParts hP _ _ _ rfl
  | cons b bytes ih =>
    refine gives_ite (gives_ite (ih _ _) (gives_ite (gives_fail _ _ _) ?_))
      (gives_ofParts hP _ _ _ rfl)
    exact (gives_next? rfl).bind fun _ _ => gives_pure (hP _ _ rfl)

theorem gives_exponentPart (negative : Bool) (significand : Nat) (start : Int)
    (hc : c.ending = e) : Gives (exponentPart negative significand start c) P := by
  have hdigits : ∀ sign : Bool × Cursor, sign.2.ending = e →
      Gives (sign.2.next .endInValue >>= fun p =>
        if Cursor.isDigit p.1 then
          exponentDigits negative significand start sign.1 p.2.ending (p.1 - 0x30).toNat p.2.place
            p.2.rest
        else p.2.fail .invalidNumber) P := by
    intro sign hsign
    refine (gives_next hsign _).bind fun p hp => gives_ite ?_ (gives_fail _ _ _)
    rw [hp]
    exact gives_exponentDigits hP _ _ _ _ _ _ _
  refine (gives_next? hc).bind fun step hstep => ?_
  cases step with
  | none => exact hdigits (false, c) hc
  | some p =>
    apply hdigits
      (if p.1 = 0x2b then (false, p.2) else if p.1 = 0x2d then (true, p.2) else (false, c))
    split
    · exact hstep p rfl
    · split
      · exact hstep p rfl
      · exact hc

theorem gives_fractionPart (negative : Bool) (significand : Nat) (start : Int)
    (hc : c.ending = e) : Gives (fractionPart negative significand start c) P := by
  have hafter : c.digits.2.ending = e := hc
  refine gives_ite ?_ ?_
  · exact (gives_next hafter _).bind fun p _ => gives_fail_bind _ _ _ _
  · refine (gives_next? hafter).bind fun step hstep => ?_
    cases step with
    | none => exact gives_ofParts hP _ _ _ hafter
    | some p =>
      exact gives_ite (gives_exponentPart hP _ _ _ (hstep p rfl))
        (gives_ofParts hP _ _ _ hafter)

end Reals

theorem givesIn_tailPart (negative : Bool) (significand left : Nat) (hc : c.ending = e) :
    GivesIn e (tailPart negative significand left c) := by
  have hreals := holdsOfReals_ending e
  have hwhole : GivesIn e (if left = 0 then .ok (ofSignificand negative significand, c)
      else ofParts negative significand left c) :=
    gives_ite (gives_pure hc) (gives_ofParts hreals _ _ _ hc)
  refine (gives_next? hc).bind fun step hstep => ?_
  cases step with
  | none => exact hwhole
  | some p =>
    exact gives_ite (gives_fractionPart hreals _ _ _ (hstep p rfl))
      (gives_ite (gives_exponentPart hreals _ _ _ (hstep p rfl)) hwhole)

theorem givesIn_unsigned (negative : Bool) (hc : c.ending = e) :
    GivesIn e (unsigned negative c) := by
  refine (gives_next hc _).bind fun p hp =>
    gives_ite ((gives_next? hp).bind fun step hstep => ?_) (gives_ite ?_ (gives_fail _ _ _))
  · cases step with
    | none => exact givesIn_tailPart _ _ _ hp
    | some d =>
      exact gives_ite (gives_fail_bind _ _ _ _) (givesIn_tailPart _ _ _ hp)
  · have hafter : c.digits.2.ending = e := hc
    exact givesIn_tailPart negative _ _ hafter

theorem keeps_reader : Keeps reader := fun hc =>
  (gives_next hc _).bind fun _ hp => gives_ite (givesIn_unsigned _ hp) (givesIn_unsigned _ hc)

end Number

/-! ### Values that nobody asked for -/

namespace Skip

theorem gives_digits (hc : c.ending = e) : Gives (digits c) fun after => after.ending = e :=
  (gives_next? hc).bind fun step _ => by
    cases step with
    | none => exact gives_fail _ _ _
    | some p =>
      exact gives_ite ((gives_next? (c := c.skipWhile Cursor.isDigit) hc).bind fun _ _ =>
        gives_pure hc) (gives_fail _ _ _)

theorem gives_exponent (hc : c.ending = e) : Gives (exponent c) fun after => after.ending = e :=
  (gives_next? hc).bind fun step hstep => by
    cases step with
    | none => exact gives_pure hc
    | some p =>
      refine gives_ite ((gives_next? (hstep p rfl)).bind fun step' hstep' => ?_) (gives_pure hc)
      cases step' with
      | none => exact gives_fail _ _ _
      | some q =>
        apply gives_digits
        split
        · exact hstep' q rfl
        · exact hstep p rfl

theorem gives_afterWhole (hc : c.ending = e) :
    Gives (afterWhole c) fun after => after.ending = e := by
  refine (gives_next? hc).bind fun step hstep => ?_
  cases step with
  | none => exact gives_pure hc
  | some p =>
    exact gives_ite ((gives_digits (hstep p rfl)).bind fun _ h => gives_exponent h)
      (gives_exponent hc)

theorem gives_number (hc : c.ending = e) : Gives (number c) fun after => after.ending = e := by
  refine (gives_next hc _).bind fun p hp => ?_
  have hunsigned : (if p.1 = 0x2d then p.2 else c).ending = e := by
    split
    · exact hp
    · exact hc
  refine (gives_next hunsigned _).bind fun q hq => gives_ite ?_ ?_
  · refine (gives_next? hq).bind fun step _ => ?_
    cases step with
    | none => exact gives_afterWhole hq
    | some d => exact gives_ite (gives_fail_bind _ _ _ _) (gives_afterWhole hq)
  · exact (gives_digits hunsigned).bind fun _ h => gives_afterWhole h

theorem Frame.gives_lead (f : Frame) (hc : c.ending = e) :
    Gives (f.lead c) fun after => after.ending = e := by
  cases f with
  | list => exact gives_pure hc
  | object =>
    exact (gives_next (c := c.skipSpaces) hc _).bind fun _ hp =>
      gives_ite ((gives_skipText hp).bind fun _ h => gives_colon h) (gives_fail _ _ _)

theorem gives_enter (frame : Frame) (stack : List Frame) (hc : c.ending = e) :
    Gives (enter frame stack c) fun p => p.2.2.ending = e :=
  (gives_next (c := c.skipSpaces) hc _).bind fun _ hp =>
    gives_ite (gives_pure hp) ((frame.gives_lead hc).bind fun _ h => gives_pure h)

theorem gives_loop (fuel : List UInt8) (stage : Stage) (stack : List Frame) (hc : c.ending = e) :
    Gives (loop fuel stage stack c) fun after => after.ending = e := by
  induction fuel generalizing stage stack c with
  | nil =>
    cases stage with
    | before => exact gives_fail _ _ _
    | behind =>
      cases stack with
      | nil => exact gives_pure hc
      | cons frame stack => exact gives_fail _ _ _
  | cons b fuel ih =>
    cases stage with
    | before =>
      refine (gives_valueStart hc).bind fun p hp => gives_ite ?_ (gives_ite ?_ (gives_ite ?_ ?_))
      · exact (gives_skipText hp.2).bind fun _ h => ih _ _ h
      · exact (gives_number hp.1).bind fun _ h => ih _ _ h
      · exact (gives_enter _ _ hp.2).bind fun _ h => ih _ _ h
      · split
        · exact (gives_word _ hp.2).bind fun _ h => ih _ _ h
        · exact gives_fail _ _ _
    | behind =>
      cases stack with
      | nil => exact gives_pure hc
      | cons frame stack =>
        refine (gives_next (c := c.skipSpaces) hc _).bind fun p hp =>
          gives_ite (ih _ _ hp) (gives_ite ?_ (gives_fail _ _ _))
        exact (frame.gives_lead hp).bind fun _ h => ih _ _ h

end Skip

theorem gives_skipValue (hc : c.ending = e) :
    Gives (skipValue c) fun after => after.ending = e :=
  Skip.gives_loop _ _ _ hc

/-! ### Scalars -/

/-- What does not stand where it should gives nothing at all. -/
theorem gives_mismatch (expected : String) (c : Cursor) (b : UInt8) (after : Cursor)
    (P : α → Prop) : Gives (mismatch expected c b after) P := by
  refine gives_ite ?_ (gives_ite ?_ (gives_ite (gives_fail _ _ _) (gives_ite (gives_fail _ _ _) ?_)))
  · exact (keeps_text rfl).bind fun _ _ => gives_fail _ _ _
  · exact (Number.keeps_reader rfl).bind fun _ _ => gives_fail _ _ _
  · split
    · exact (gives_word _ rfl).bind fun _ _ => gives_fail _ _ _
    · exact gives_fail _ _ _

theorem keeps_string : Keeps string := fun hc =>
  (gives_valueStart hc).bind fun _ hp => gives_ite (keeps_text hp.2) (gives_mismatch _ _ _ _ _)

theorem keeps_natural (type : String) (bound : Nat) : Keeps (natural type bound) := fun hc =>
  (gives_valueStart hc).bind fun _ hp => by
    refine gives_ite ((Number.keeps_reader hp.1).bind fun q hq => ?_) (gives_mismatch _ _ _ _ _)
    dsimp only
    split
    · exact gives_ite (gives_pure hq) (gives_fail _ _ _)
    · exact gives_fail _ _ _
    · exact gives_fail _ _ _

theorem keeps_uint32 : Keeps uint32 := fun hc =>
  (keeps_natural _ _ hc).bind fun _ hp => gives_pure hp

theorem keeps_uint64 : Keeps uint64 := fun hc =>
  (keeps_natural _ _ hc).bind fun _ hp => gives_pure hp

theorem gives_unit (hc : c.ending = e) : Gives (unit c) fun after => after.ending = e :=
  (gives_valueStart hc).bind fun _ hp =>
    gives_ite (gives_word _ hp.2) (gives_mismatch _ _ _ _ _)

theorem keeps_variant (options : List (String × α)) : Keeps (variant options) := fun hc =>
  (keeps_text hc).bind fun _ hp => by
    dsimp only
    split
    · exact gives_pure hp
    · exact gives_fail _ _ _

theorem keeps_choice (options : List (String × α)) : Keeps (choice options) := by
  intro e c hc
  refine (gives_valueStart hc).bind fun p hp =>
    gives_ite (keeps_variant options hp.2) (gives_ite ?_ (gives_fail _ _ _))
  refine (gives_valueStart hp.2).bind fun q hq => gives_ite ?_ (gives_fail _ _ _)
  refine (keeps_variant options hq.2).bind fun a ha => (gives_colon ha).bind fun after hafter =>
    (gives_unit hafter).bind fun beyond hbeyond => ?_
  exact (gives_next (c := beyond.skipSpaces) hbeyond _).bind fun _ h =>
    gives_ite (gives_pure h) (gives_fail _ _ _)

/-! ### Containers -/

theorem givesIn_within (c : Cursor) {x : Except Failure (α × Cursor)} (h : GivesIn e x) :
    GivesIn e (within c x) := by
  cases x with
  | error failure => exact gives_error _ _
  | ok p => exact h

theorem gives_item? (first : Bool) (hc : c.ending = e) :
    Gives (item? first c) fun next => ∀ after, next = some after → after.ending = e := by
  have hhere : ∀ {c : Cursor}, c.ending = e →
      ∀ after, some c = some after → after.ending = e := fun hc _ h => Option.some.inj h ▸ hc
  refine (gives_next (c := c.skipSpaces) hc _).bind fun p hp => gives_ite (gives_pure nofun)
    (gives_ite (gives_pure (hhere hc)) (gives_ite ?_ (gives_fail _ _ _)))
  exact (gives_next (c := p.2.skipSpaces) hp _).bind fun _ _ =>
    gives_ite (gives_fail _ _ _) (gives_pure (hhere hp))

theorem gives_closeList (hc : c.ending = e) :
    Gives (closeList c) fun after => after.ending = e :=
  (gives_next (c := c.skipSpaces) hc _).bind fun _ hp => gives_ite (gives_pure hp)
    (gives_ite (gives_ite (gives_fail _ _ _) (gives_fail _ _ _)) (gives_fail _ _ _))

theorem keeps_itemsLoop {r : Reader α} (hr : Keeps r) (fuel : List UInt8) (first : Bool)
    (items : List α) : Keeps (itemsLoop r fuel first items) := by
  induction fuel generalizing first items with
  | nil => exact fun _ => gives_fail _ _ _
  | cons b fuel ih =>
    intro e c hc
    refine (gives_item? first hc).bind fun next hnext => ?_
    cases next with
    | none => exact (gives_closeList hc).bind fun _ h => gives_pure h
    | some after => exact (hr (hnext after rfl)).bind fun _ hp => ih _ _ hp

theorem keeps_items {r : Reader α} (hr : Keeps r) : Keeps (items r) := fun hc =>
  (keeps_itemsLoop hr _ _ _ hc).bind fun _ hp => gives_pure hp

theorem keeps_listOf {r : Reader α} (hr : Keeps r) : Keeps (listOf r) := fun hc =>
  (gives_valueStart hc).bind fun _ hp =>
    gives_ite (givesIn_within _ (keeps_items hr hp.2)) (gives_mismatch _ _ _ _ _)

theorem gives_name? (first : Bool) (hc : c.ending = e) :
    Gives (name? first c) fun next => ∀ p, next = some p → p.2.ending = e := by
  have hname : ∀ p : UInt8 × Cursor, p.2.ending = e → Gives
      (if p.1 = 0x22 then text p.2 >>= fun s => pure (some s) else p.2.fail .nameNotText)
      fun next => ∀ q, next = some q → q.2.ending = e := by
    intro p hp
    refine gives_ite ((keeps_text hp).bind fun s hs => gives_pure fun q hq => ?_) (gives_fail _ _ _)
    exact Option.some.inj hq ▸ hs
  refine (gives_next (c := c.skipSpaces) hc _).bind fun p hp => gives_ite (gives_pure nofun)
    (gives_ite (hname p hp) (gives_ite ?_ (gives_fail_bind _ _ _ _)))
  exact (gives_next (c := p.2.skipSpaces) hp _).bind fun q hq =>
    gives_ite (gives_fail_bind _ _ _ _) (hname q hq)

theorem keeps_membersLoop {step : σ → String → Reader σ} (hstep : ∀ s name, Keeps (step s name))
    (fuel : List UInt8) (first : Bool) (acc : σ) : Keeps (membersLoop step fuel first acc) := by
  induction fuel generalizing first acc with
  | nil => exact fun _ => gives_fail _ _ _
  | cons b fuel ih =>
    intro e c hc
    refine (gives_name? first hc).bind fun next hnext => ?_
    cases next with
    | none =>
      exact (gives_next (c := c.skipSpaces) hc _).bind fun _ hp => gives_pure hp
    | some p => exact (hstep acc p.1 (hnext p rfl)).bind fun _ hq => ih _ _ hq

/-! ### Records -/

/-- Members whose values are read by readers that stay in their document. -/
def KeepAll (known : List (Member σ)) : Prop := ∀ m ∈ known, ∀ s, Keeps (m.read s)

theorem keepAll_nil : KeepAll ([] : List (Member σ)) := nofun

theorem KeepAll.cons {m : Member σ} {known : List (Member σ)} (h : KeepAll known)
    (hm : ∀ s, Keeps (m.read s)) : KeepAll (m :: known) := by
  intro m' hm'
  rcases List.mem_cons.1 hm' with rfl | hm'
  · exact hm
  · exact h m' hm'

theorem keeps_required {r : Reader α} (hr : Keeps r) (name : String) (put : α → σ → σ) (s : σ) :
    Keeps ((Member.required name r put).read s) := fun hc =>
  (hr hc).bind fun _ hp => gives_pure hp

theorem keeps_defaulted {r : Reader α} (hr : Keeps r) (name : String) (put : α → σ → σ) (s : σ) :
    Keeps ((Member.defaulted name r put).read s) :=
  keeps_required hr name put s

theorem Member.keeps_step {known : List (Member σ)} (hknown : KeepAll known)
    (acc : List String × σ) (name : String) : Keeps (Member.step known acc name) := by
  intro e c hc
  unfold Member.step
  dsimp only
  split
  · exact (gives_colon hc).bind fun _ h => (gives_skipValue h).bind fun _ h => gives_pure h
  · next m hm =>
    refine gives_ite (gives_fail _ _ _) ((gives_colon hc).bind fun _ h => ?_)
    exact (hknown m (List.mem_of_find?_eq_some hm) _ h).bind fun _ hp => gives_pure hp

theorem Member.keeps_positional {known : List (Member σ)} (hknown : KeepAll known)
    (expected : String) (count : Nat) (first : Bool) (s : σ) :
    Keeps (Member.positional expected known count first s) := by
  induction known generalizing count first s with
  | nil => exact fun hc => (gives_closeList hc).bind fun _ h => gives_pure h
  | cons m known ih =>
    intro e c hc
    have hrest : KeepAll known := fun m' hm' => hknown m' (List.mem_cons_of_mem m hm')
    refine (gives_item? first hc).bind fun next hnext => ?_
    cases next with
    | some after =>
      exact (hknown m List.mem_cons_self s (hnext after rfl)).bind fun _ hp => ih hrest _ _ _ hp
    | none =>
      exact gives_ite ((gives_closeList hc).bind fun _ _ => gives_fail _ _ _) (ih hrest _ _ _ hc)

theorem keeps_record (type : String) {known : List (Member σ)} (hknown : KeepAll known)
    (blank : σ) : Keeps (record type known blank) := by
  intro e c hc
  refine (gives_valueStart hc).bind fun p hp => gives_ite (givesIn_within _ ?_)
    (gives_ite (givesIn_within _ ?_) (gives_mismatch _ _ _ _ _))
  · refine (keeps_membersLoop (Member.keeps_step hknown) _ _ _ hp.2).bind fun q hq => ?_
    dsimp only
    split
    · exact gives_fail _ _ _
    · exact gives_pure hq
  · exact Member.keeps_positional hknown _ _ _ _ hp.2

theorem keeps_pair {r : Reader α} (hr : Keeps r) (blank : α) : Keeps (pair r blank) := fun hc =>
  (gives_valueStart hc).bind fun _ hp => gives_ite (givesIn_within _ (Member.keeps_positional
    ((keepAll_nil.cons (keeps_required hr _ _)).cons (keeps_required hr _ _)) _ _ _ _ hp.2))
    (gives_mismatch _ _ _ _ _)

/-! ### Documents -/

/-- The end of a document can only be met if it is complete. -/
theorem complete_of_next? (h : c.next? = .ok none) : c.ending = .complete := by
  obtain ⟨rest, ending, place⟩ := c
  cases rest with
  | cons b rest => cases h
  | nil =>
    cases ending with
    | complete => rfl
    | broken fault => cases h

/-- A document that is read is complete. -/
theorem complete_of_document {r : Reader α} (hr : Keeps r) {s : Stream} {a : α}
    (h : document r s = .ok a) : s.ending = .complete := by
  obtain ⟨⟨a, after⟩, hread, h⟩ := bind_eq_ok_iff.1 h
  have hafter : after.ending = s.ending := hr rfl _ hread
  obtain ⟨step, hnext, h⟩ := bind_eq_ok_iff.1 h
  cases step with
  | some p => cases h
  | none => exact hafter.symm.trans (complete_of_next? (c := after.skipSpaces) hnext)

end DeviceConsole.Json
