import DeviceConsole.Files
import DeviceConsole.Proofs.Event.Lines
import DeviceConsole.Proofs.Gzip.Member
import DeviceConsole.Proofs.Json.Endings

/-!
Compressed files and plain ones.

`load_compressed`: settings, enrollment data and events are loaded from a compressed file just as
from the plain file of its content, and a damaged file is never accepted. A loader reads the content
while it is being decoded, and may have all it needs before the trailer has been looked at. What
makes this safe is that none gives a result before it has met the end of its stream
(`Json.complete_of_document`, `Event.complete_of_ofStream`), which a damaged file does not have.
-/
namespace DeviceConsole

/-- The same failure about the file at `path`. -/
def Error.about (path : String) : Error → Error
  | .input (.blankDate _) => .input (.blankDate path)
  | e => e

namespace Files
open Gzip

variable {α : Type}

/-- How one kind of file is loaded, and what there is to point out about what it holds. -/
structure Loader (α : Type) where
  load : String → Except Fault Stream → Except Error α
  warnings : α → List Warning

namespace Loader

def settings : Loader Settings := ⟨Files.settings, fun _ => []⟩

def enrollment : Loader Enrollment := ⟨Files.enrollment, Enrollment.warnings⟩

def events : Loader (List Event) := ⟨Files.events, fun _ => []⟩

/-- What a load of a file with the given bytes points out, and its result. -/
def outcome (l : Loader α) (path : String) (bytes : List UInt8) : List Warning × Except Error α :=
  match l.load path (.ok (.whole bytes)) with
  | .ok a => (l.warnings a, .ok a)
  | .error e => ([], .error e)

/-- Whether a load of a file with the given bytes gives `a`. -/
def Accepts (l : Loader α) (path : String) (bytes : List UInt8) (a : α) : Prop :=
  l.load path (.ok (.whole bytes)) = .ok a

end Loader

/-- A file at `p` is loaded for what it holds compressed, just as from a plain file at `q`. -/
structure LoadsContent (l : Loader α) (p q : String) : Prop where
  /-- A file is accepted exactly if its first member is whole and the content is accepted. -/
  accepts_iff : ∀ bytes a, l.Accepts p bytes a ↔
    ∃ content, IsFile bytes content ∧ l.Accepts q content a
  /-- If the first member is whole then both loads show the same, up to the path in a message. -/
  outcome_eq : ∀ bytes content, IsFile bytes content →
    l.outcome p bytes = (l.outcome q content).map id (Except.mapError (Error.about p))
  /-- A member that is cut short is not accepted. -/
  cut : ∀ member content bytes cut, IsMember member content → cut ≠ [] → member = bytes ++ cut →
    ∀ a, ¬ l.Accepts p bytes a
  /-- Nor is a body that is not followed by the checksum and the length of its content. -/
  trailer : ∀ header body content tail, IsHeader header → IsBody body content →
    ¬ Gzip.trailer content <+: tail → ∀ a, ¬ l.Accepts p (header ++ body ++ tail) a

/-! ### From streams to files -/

namespace Loader

/-- What a loader makes of the stream of a file's content, which it sees only as far as it has to
read: the path is no more than a name to it, and it accepts nothing before it has met the end. -/
structure Views (l : Loader α) (view : String → Stream → Except Error α) : Prop where
  load : ∀ path file, l.load path (.ok file) =
    view path (if Path.extension? path = some "gz" then expand file else file)
  renamed : ∀ p q s, view p s = (view q s).mapError (Error.about p)
  complete : ∀ path s a, view path s = .ok a → s.ending = .complete

namespace Views

variable {l : Loader α} {view : String → Stream → Except Error α} {p q : String}

theorem load_packed (h : l.Views view) (hp : Path.extension? p = some "gz") (file : Stream) :
    l.load p (.ok file) = view p (expand file) := by
  rw [h.load, if_pos hp]

theorem load_plain (h : l.Views view) (hq : Path.extension? q ≠ some "gz") (file : Stream) :
    l.load q (.ok file) = view q file := by
  rw [h.load, if_neg hq]

/-- What stands behind the first member is of no effect. -/
theorem load_of_isFile (h : l.Views view) (hp : Path.extension? p = some "gz")
    (hq : Path.extension? q ≠ some "gz") {bytes content : List UInt8}
    (hfile : IsFile bytes content) :
    l.load p (.ok (.whole bytes)) =
      (l.load q (.ok (.whole content))).mapError (Error.about p) := by
  rw [h.load_packed hp, h.load_plain hq, expand_of_isFile hfile, h.renamed p q]

theorem exists_isFile (h : l.Views view) (hp : Path.extension? p = some "gz")
    {bytes : List UInt8} {a : α} (ha : l.Accepts p bytes a) : ∃ content, IsFile bytes content := by
  apply exists_isFile_of_complete
  apply h.complete p _ a
  rw [← h.load_packed hp]
  exact ha

theorem loadsContent (h : l.Views view) (hp : Path.extension? p = some "gz")
    (hq : Path.extension? q ≠ some "gz") : LoadsContent l p q where
  accepts_iff := by
    intro bytes a
    have hsame : ∀ content, IsFile bytes content →
        (l.Accepts p bytes a ↔ l.Accepts q content a) := by
      intro content hfile
      unfold Accepts
      rw [h.load_of_isFile hp hq hfile, mapError_eq_ok_iff]
    refine ⟨fun ha => ?_, fun ⟨content, hfile, ha⟩ => (hsame content hfile).2 ha⟩
    obtain ⟨content, hfile⟩ := h.exists_isFile hp ha
    exact ⟨content, hfile, (hsame content hfile).1 ha⟩
  outcome_eq := by
    intro bytes content hfile
    unfold outcome
    rw [h.load_of_isFile hp hq hfile]
    cases l.load q _ <;> rfl
  cut := by
    intro member content bytes cut hmember hcut heq a ha
    obtain ⟨content', hfile⟩ := h.exists_isFile hp ha
    exact not_isFile_of_cut hmember hcut heq content' hfile
  trailer := by
    intro header body content tail hheader hbody htail a ha
    obtain ⟨content', hfile⟩ := h.exists_isFile hp ha
    exact htail (IsFile.trailer hheader hbody hfile)

end Views

end Loader

/-! ### The loaders -/

theorem keeps_statusRule : Json.Keeps Filter.StatusRule.reader := Json.keeps_choice _

theorem keeps_settings : Json.Keeps Settings.reader := by
  apply Json.keeps_record
  apply Json.KeepAll.cons _ (Json.keeps_defaulted Json.keeps_string _ _)
  apply Json.KeepAll.cons _ (Json.keeps_defaulted Json.keeps_string _ _)
  apply Json.KeepAll.cons _ (Json.keeps_defaulted Json.keeps_uint32 _ _)
  exact Json.keepAll_nil.cons (Json.keeps_defaulted keeps_statusRule _ _)

theorem keeps_segment : Json.Keeps Segment.reader := by
  apply Json.keeps_record
  apply Json.KeepAll.cons _ (Json.keeps_required Json.keeps_string _ _)
  exact Json.keepAll_nil.cons (Json.keeps_required Json.keeps_uint64 _ _)

theorem keeps_enrollment : Json.Keeps Enrollment.reader := by
  apply Json.keeps_record
  apply Json.KeepAll.cons _ (Json.keeps_required (Json.keeps_pair Json.keeps_string _) _ _)
  exact Json.keepAll_nil.cons (Json.keeps_defaulted (Json.keeps_listOf keeps_segment) _ _)

theorem document_ok (r : Json.Reader α) (path : String) (file : Stream) :
    document r path (.ok file) =
      (Json.document r (if Path.extension? path = some "gz" then expand file else file)).mapError
        Error.json := by
  unfold document content
  dsimp only [ok_bind]
  cases Json.document r _ <;> rfl

theorem views_settings : Loader.settings.Views fun _ s =>
    (Json.document Settings.reader s).mapError Error.json where
  load := document_ok Settings.reader
  renamed := by
    intro p q s
    cases Json.document Settings.reader s <;> rfl
  complete := by
    intro path s a h
    exact Json.complete_of_document keeps_settings (mapError_eq_ok_iff.1 h)

theorem views_enrollment : Loader.enrollment.Views fun path s =>
    (Json.document Enrollment.reader s).mapError Error.json >>= fun e =>
      if Text.isAllBlank e.dateFrom || Text.isAllBlank e.dateTo then
        .error (.input (.blankDate path))
      else pure e where
  load := by
    intro path file
    rw [← document_ok]
    rfl
  renamed := by
    intro p q s
    cases Json.document Enrollment.reader s with
    | error failure => rfl
    | ok e =>
      -- Only this refusal names the path.
      show (if _ then _ else _) = Except.mapError _ (if _ then _ else _)
      split <;> rfl
  complete := by
    intro path s a h
    obtain ⟨e, hdocument, -⟩ := bind_eq_ok_iff.1 h
    exact Json.complete_of_document keeps_enrollment (mapError_eq_ok_iff.1 hdocument)

/-- No failure about a line names the file. -/
theorem about_of_ofLineBytes {n : Nat} {line : Except Fault (List UInt8)} {e : Error}
    (h : Event.ofLineBytes n line = .error e) (path : String) : e.about path = e := by
  unfold Event.ofLineBytes at h
  split at h
  · obtain rfl := Except.error.inj h
    rfl
  · split at h
    · obtain rfl := Except.error.inj h
      rfl
    · split at h
      · cases h
      · obtain rfl := Except.error.inj h
        rfl

theorem about_ofLinesFrom (path : String) (n : Nat) (events : List Event)
    (lines : List (Except Fault (List UInt8))) :
    (Event.ofLinesFrom n events lines).mapError (Error.about path) =
      Event.ofLinesFrom n events lines := by
  induction lines generalizing n events with
  | nil => rfl
  | cons line lines ih =>
    rw [Event.ofLinesFrom]
    split
    · next e he => exact congrArg Except.error (about_of_ofLineBytes he path)
    · exact ih _ _
    · exact ih _ _

theorem views_events : Loader.events.Views fun _ s => Event.ofStream s where
  load := by
    intro path file
    show content path (.ok file) >>= Event.ofStream = _
    rw [content, ok_bind]
  renamed := by
    intro p q s
    exact (about_ofLinesFrom p 1 [] (Event.linesOf s)).symm
  complete := by
    intro path s events h
    exact Event.complete_of_ofStream h

/-- **A compressed file is loaded just as its content.** For settings, enrollment data and events
alike, a file at a path that ends in `.gz` is accepted exactly if its first member is whole and its
content would be accepted from a file at any other path; and if the member is whole, then both loads
give the same warnings and fail alike, whatever stands behind it. No loader accepts a member that is
cut short, or that does not end with the checksum and the length of its content. What a whole member
is, `Gzip.IsMember` says: a text in its header has at most 65535 bytes, and a copy in its body may
reach back before the first byte, where it finds zeros. -/
theorem load_compressed {p q : String} (hp : Path.extension? p = some "gz")
    (hq : Path.extension? q ≠ some "gz") :
    LoadsContent .settings p q ∧ LoadsContent .enrollment p q ∧ LoadsContent .events p q :=
  ⟨views_settings.loadsContent hp hq, views_enrollment.loadsContent hp hq,
    views_events.loadsContent hp hq⟩

/-- An event with something behind the member that holds it. -/
theorem load_compressed_event :
    Files.events "events.gz" (.ok (.whole ([0x1f, 0x8b, 8, 0, 0, 0, 0, 0, 2, 3, 0x4b, 0xce, 0x48,
      0x2c, 0x2a, 0xe1, 0x74, 0x8a, 0xf4, 0x77, 0xe1, 2, 0, 0x48, 0x41, 0xf4, 0x61, 0x0b, 0, 0, 0,
      0x2a]))) = .ok [.segment "BYOD"] := by
  have hloads := (load_compressed (p := "events.gz") (q := "events") (by decide +kernel)
    (by decide +kernel)).2.2
  apply (hloads.accepts_iff _ _).2
  refine ⟨Stream.bytesOf "chart\tBYOD\n", expand_eq_whole_iff.1 ?_, ?_⟩
  · decide +kernel
  · show Files.events "events" _ = _
    rfl

end Files

end DeviceConsole
