import DeviceConsole.Proofs.Success
import DeviceConsole.Storage

/-!
What writing to a storage does, and what it leaves alone.

`Writes places s t` says of two storages that `t` came from `s` by writing files at the places and
adding folders, and that nothing else differs. It composes, making folders satisfies it without a
place (`writes_makeFolders`) and writing a file with one, also when the writing breaks off
(`save_ends`). No folder is lost on the way and no link is changed, so a path that led somewhere leads
there still (`Writes.lead`, `Writes.walk`), and a file is read back as it was left (`Wrote.load`).
-/
namespace DeviceConsole.Storage

/-! ### Differences between two storages -/

/-- Files were written at the places and folders were added, and nothing else differs. -/
structure Writes (places : List (List String)) (s t : Storage) : Prop where
  frame : { t with entries := s.entries } = s
  same : ∀ p, p ∉ places →
    t.get? p = s.get? p ∨ s.get? p = none ∧ t.get? p = some .folder
  written : ∀ p ∈ places, s.get? p ≠ some .folder ∧ ∃ bytes, t.get? p = some (.file bytes)

theorem Writes.refl (s : Storage) : Writes [] s s :=
  ⟨rfl, fun _ _ => .inl rfl, nofun⟩

variable {places more : List (List String)} {s t u : Storage}

theorem Writes.home (h : Writes places s t) : t.home = s.home := by
  rw [← h.frame]

theorem Writes.links (h : Writes places s t) : t.links = s.links := by
  rw [← h.frame]

/-- No folder is lost. -/
theorem Writes.folder (h : Writes places s t) {p : List String} (hp : s.get? p = some .folder) :
    t.get? p = some .folder := by
  by_cases hm : p ∈ places
  · exact absurd hp (h.written p hm).1
  · rcases h.same p hm with he | ⟨hnone, -⟩
    · rw [he, hp]
    · rw [hp] at hnone
      cases hnone

/-- Nothing that was there is gone. -/
theorem Writes.isSome (h : Writes places s t) {p : List String} (hp : (s.get? p).isSome) :
    (t.get? p).isSome := by
  by_cases hm : p ∈ places
  · obtain ⟨bytes, hb⟩ := (h.written p hm).2
    rw [hb]
    rfl
  · rcases h.same p hm with he | ⟨-, hf⟩
    · rw [he]
      exact hp
    · rw [hf]
      rfl

/-- Away from the places the files are the same ones. -/
theorem Writes.file_iff (h : Writes places s t) {p : List String} (hm : p ∉ places)
    (bytes : List UInt8) : t.get? p = some (.file bytes) ↔ s.get? p = some (.file bytes) := by
  rcases h.same p hm with he | ⟨hnone, hf⟩
  · rw [he]
  · simp [hnone, hf]

theorem Writes.append (h : Writes places s t) (h' : Writes more t u) :
    Writes (places ++ more) s u := by
  refine ⟨?_, fun p hp => ?_, fun p hp => ?_⟩
  · calc { u with entries := s.entries }
        = { { u with entries := t.entries } with entries := s.entries } := rfl
      _ = { t with entries := s.entries } := by rw [h'.frame]
      _ = s := h.frame
  · obtain ⟨hm, hm'⟩ : p ∉ places ∧ p ∉ more := by simpa using hp
    rcases h'.same p hm' with he' | ⟨hnone', hf'⟩
    · rw [he']
      exact h.same p hm
    · rcases h.same p hm with he | ⟨-, hf⟩
      · exact .inr ⟨he ▸ hnone', hf'⟩
      · rw [hf] at hnone'
        cases hnone'
  · by_cases hm' : p ∈ more
    · obtain ⟨hne, hfile⟩ := h'.written p hm'
      exact ⟨fun hs => hne (h.folder hs), hfile⟩
    · have hm : p ∈ places := (List.mem_append.1 hp).resolve_right hm'
      obtain ⟨hne, bytes, hfile⟩ := h.written p hm
      exact ⟨hne, bytes, (h'.file_iff hm' bytes).2 hfile⟩

theorem writes_put_folder {path : List String} (h : s.get? path = none) :
    Writes [] s (s.put path .folder) := by
  refine ⟨rfl, fun p _ => ?_, nofun⟩
  by_cases hp : p = path
  · subst hp
    have hne : p ≠ [] := by
      rintro rfl
      cases h
    exact .inr ⟨h, get?_put_self hne _ _⟩
  · exact .inl (get?_put_of_ne hp _ _)

/-- The root is a folder, so a place that is none has a name. -/
theorem ne_nil_of_get? {path : List String} (h : s.get? path ≠ some .folder) : path ≠ [] := by
  rintro rfl
  exact h rfl

theorem writes_put_file {path : List String} (h : s.get? path ≠ some .folder)
    (bytes : List UInt8) : Writes [path] s (s.put path (.file bytes)) := by
  refine ⟨rfl, fun p hp => .inl (get?_put_of_ne ?_ _ _), fun p hp => ?_⟩
  · simpa using hp
  · obtain rfl := List.mem_singleton.1 hp
    exact ⟨h, bytes, get?_put_self (ne_nil_of_get? h) _ _⟩

/-! ### Walking -/

/-- A part that can be named is named by a folder that is there. -/
theorem locate_eq_ok {folder place : List String} {part : String}
    (h : s.locate folder part = .ok place) : s.get? folder = some .folder := by
  unfold locate at h
  split at h
  · cases h
  · cases h
  · assumption

theorem locate_named {folder place : List String} {part : String}
    (h : s.locate folder part = .ok place) (hdot : part ≠ ".") (hup : part ≠ "..") :
    place = folder ++ [part] := by
  unfold locate at h
  rw [locate_eq_ok h] at h
  simp only [hdot, hup, if_false] at h
  split at h
  · cases h
  · exact (Except.ok.inj h).symm

theorem Writes.locate (h : Writes places s t) {folder place : List String} {part : String}
    (hs : s.locate folder part = .ok place) : t.locate folder part = .ok place := by
  have hfolder := locate_eq_ok hs
  unfold Storage.locate at hs ⊢
  rw [h.folder hfolder]
  rwa [hfolder] at hs

/-- How the first part of several is taken. -/
theorem walkParts_cons_eq_ok_iff
    {onLink : List String → String → List String → Except Fault (List String)}
    {folder place : List String} {part : String} {rest : List String} :
    s.walkParts onLink folder (part :: rest) = .ok place ↔
      ∃ next, s.locate folder part = .ok next ∧
        ((∃ path, s.links.lookup next = some path ∧ onLink folder path rest = .ok place) ∨
          (s.links.lookup next = none ∧ (rest = [] ∨ (s.get? next).isSome) ∧
            s.walkParts onLink next rest = .ok place)) := by
  rw [walkParts, bind_eq_ok_iff]
  refine exists_congr fun next => and_congr_right fun _ => ?_
  cases hlink : s.links.lookup next with
  | some path => simp
  | none =>
    by_cases hthere : rest = [] ∨ (s.get? next).isSome
    · simp [hthere]
    · simp [hthere]

theorem Writes.walkParts (h : Writes places s t)
    {onLink onLink' : List String → String → List String → Except Fault (List String)}
    (hlink : ∀ folder path rest place, onLink folder path rest = .ok place →
      onLink' folder path rest = .ok place)
    {parts : List String} {folder place : List String}
    (hs : s.walkParts onLink folder parts = .ok place) :
    t.walkParts onLink' folder parts = .ok place := by
  induction parts generalizing folder with
  | nil => exact hs
  | cons part rest ih =>
    obtain ⟨next, hlocate, hnext⟩ := walkParts_cons_eq_ok_iff.1 hs
    refine walkParts_cons_eq_ok_iff.2 ⟨next, h.locate hlocate, ?_⟩
    rw [h.links]
    rcases hnext with ⟨path, hpath, hrest⟩ | ⟨hnone, hthere, hrest⟩
    · exact .inl ⟨path, hpath, hlink _ _ _ _ hrest⟩
    · exact .inr ⟨hnone, hthere.imp_right h.isSome, ih hrest⟩

/-- Some parts lead where they led before, through the same links. -/
theorem Writes.follow (h : Writes places s t) {links : Nat} {folder parts place : List String}
    (hs : s.follow links folder parts = .ok place) : t.follow links folder parts = .ok place := by
  induction links generalizing folder parts place with
  | zero =>
    refine h.walkParts (fun _ _ _ _ hlink => ?_) hs
    cases hlink
  | succ links ih => exact h.walkParts (fun _ _ _ _ hlink => ih hlink) hs

theorem Writes.lead (h : Writes places s t) {path : String} {place : List String}
    (hs : s.lead path = .ok place) : t.lead path = .ok place := by
  unfold Storage.lead at hs ⊢
  rw [h.home]
  exact h.follow hs

/-- What is there is found under a path that does not ask for a folder. -/
theorem walk_of_lead {path : String} {place : List String} (hfile : Path.asksFolder path = false)
    (h : s.lead path = .ok place) (hthere : (s.get? place).isSome) : s.walk path = .ok place := by
  rw [walk, steps, hfile, if_neg Bool.false_ne_true, List.append_nil]
  exact bind_eq_ok_iff.2 ⟨place, h, if_pos hthere⟩

/-! ### Names -/

/-- A name is looked up in the folder that the parts before it lead to, and unless it is a link it
names its place there. -/
structure NamedIn (s : Storage) (folder : List String) (name : String) (place : List String) :
    Prop where
  isFolder : s.get? folder = some .folder
  plain : s.links.lookup (folder ++ [name]) = none → place = folder ++ [name]

theorem walkParts_concat {name : String} (hdot : name ≠ ".") (hup : name ≠ "..")
    {onLink : List String → String → List String → Except Fault (List String)}
    (hlink : ∀ start path rest place, onLink start path (rest ++ [name]) = .ok place →
      ∃ folder, onLink start path rest = .ok folder ∧ s.NamedIn folder name place)
    {parts start place : List String} (h : s.walkParts onLink start (parts ++ [name]) = .ok place) :
    ∃ folder, s.walkParts onLink start parts = .ok folder ∧ s.NamedIn folder name place := by
  induction parts generalizing start with
  | nil =>
    obtain ⟨next, hlocate, hnext⟩ := walkParts_cons_eq_ok_iff.1 h
    obtain rfl := locate_named hlocate hdot hup
    refine ⟨start, rfl, locate_eq_ok hlocate, fun hnone => ?_⟩
    rcases hnext with ⟨path, hpath, -⟩ | ⟨-, -, hplace⟩
    · rw [hnone] at hpath
      cases hpath
    · exact (Except.ok.inj hplace).symm
  | cons part parts ih =>
    obtain ⟨next, hlocate, hnext⟩ := walkParts_cons_eq_ok_iff.1 h
    rcases hnext with ⟨path, hpath, hrest⟩ | ⟨hnone, hthere, hrest⟩
    · obtain ⟨folder, hfolder, hnamed⟩ := hlink _ _ _ _ hrest
      exact ⟨folder, walkParts_cons_eq_ok_iff.2 ⟨next, hlocate, .inl ⟨path, hpath, hfolder⟩⟩, hnamed⟩
    · obtain ⟨folder, hfolder, hnamed⟩ := ih hrest
      have hthere : (s.get? next).isSome := hthere.resolve_left (by simp)
      exact ⟨folder, walkParts_cons_eq_ok_iff.2
        ⟨next, hlocate, .inr ⟨hnone, .inr hthere, hfolder⟩⟩, hnamed⟩

theorem follow_concat {name : String} (hdot : name ≠ ".") (hup : name ≠ "..") {links : Nat}
    {parts start place : List String}
    (h : s.follow links start (parts ++ [name]) = .ok place) :
    ∃ folder, s.follow links start parts = .ok folder ∧ s.NamedIn folder name place := by
  induction links generalizing parts start place with
  | zero =>
    refine walkParts_concat hdot hup (fun _ _ _ _ hlink => ?_) h
    cases hlink
  | succ links ih =>
    refine walkParts_concat hdot hup (fun start path rest place hrest => ?_) h
    rw [← List.append_assoc] at hrest
    exact ih hrest

/-- The path of a name in a folder leads to a name in the place of the folder. -/
theorem lead_join {folder name : String} (hname : Path.IsName name) (hdot : name ≠ ".")
    (hup : name ≠ "..") {place : List String} (h : s.lead (Path.join folder name) = .ok place) :
    ∃ outer, s.lead folder = .ok outer ∧ s.NamedIn outer name place := by
  unfold lead at h ⊢
  rw [Path.parts_join folder hname, origin, Path.isAbsolute_join folder hname, ← origin] at h
  exact follow_concat hdot hup h

/-- Two names in a folder name two places, unless one of them is a link. -/
theorem link_of_lead_join {folder name name' : String} (hname : Path.IsName name)
    (hname' : Path.IsName name') (hdots : ∀ n ∈ [name, name'], n ≠ "." ∧ n ≠ "..")
    (hne : name ≠ name') {place : List String} (h : s.lead (Path.join folder name) = .ok place)
    (h' : s.lead (Path.join folder name') = .ok place) :
    ∃ outer, s.lead folder = .ok outer ∧
      ∃ n ∈ [name, name'], (s.links.lookup (outer ++ [n])).isSome := by
  obtain ⟨hdot, hup⟩ := hdots name (by simp)
  obtain ⟨hdot', hup'⟩ := hdots name' (by simp)
  obtain ⟨outer, houter, hnamed⟩ := lead_join hname hdot hup h
  obtain ⟨outer', houter', hnamed'⟩ := lead_join hname' hdot' hup' h'
  obtain rfl := Except.ok.inj (houter.symm.trans houter')
  refine ⟨outer, houter, ?_⟩
  cases hlink : s.links.lookup (outer ++ [name]) with
  | some path => exact ⟨name, by simp, by rw [hlink]; rfl⟩
  | none =>
    cases hlink' : s.links.lookup (outer ++ [name']) with
    | some path => exact ⟨name', by simp, by rw [hlink']; rfl⟩
    | none =>
      have hplaces := (hnamed.plain hlink).symm.trans (hnamed'.plain hlink')
      exact absurd (List.singleton_inj.1 (List.append_cancel_left hplaces)) hne

/-! ### Folders -/

theorem writes_makeFolder {start parts : List String} (h : s.makeFolder start parts = .ok t) :
    Writes [] s t := by
  unfold makeFolder at h
  split at h
  · cases h
  · obtain ⟨folder, -, h⟩ := bind_eq_ok_iff.1 h
    obtain ⟨place, -, h⟩ := bind_eq_ok_iff.1 h
    split at h
    · cases h
    · next hfree =>
      split at h
      · cases h
      · obtain rfl := Except.ok.inj h
        have hnone : s.get? place = none := by
          simp only [Bool.or_eq_true, not_or, Bool.not_eq_true, Option.isSome_eq_false_iff,
            Option.isNone_iff_eq_none] at hfree
          exact hfree.1.2
        exact writes_put_folder hnone

theorem writes_makeFoldersAt (start parts : List String) (s : Storage) :
    Writes [] s (s.makeFoldersAt start parts).2 := by
  induction hn : parts.length using Nat.strongRecOn generalizing parts s with
  | ind n ih =>
    unfold makeFoldersAt
    split
    · exact .refl s
    · next hne =>
      have hshort := outer_length parts hne
      split
      · next t hmade => exact writes_makeFolder hmade
      · have houter := ih _ (hn ▸ hshort) (outer parts) s rfl
        split
        · next fault t hmade =>
          rw [hmade] at houter
          exact houter
        · next t hmade =>
          rw [hmade] at houter
          split
          · next u hmade' => exact houter.append (writes_makeFolder hmade')
          · exact houter
      · exact .refl s

theorem writes_makeFolders (path : String) (s : Storage) :
    Writes [] s (s.makeFolders path).2 := by
  unfold makeFolders
  split
  · exact .refl s
  · split
    · exact .refl s
    · exact writes_makeFoldersAt _ _ s

/-! ### Files -/

/-- Some bytes were left at a path, which leads to one place. -/
structure Wrote (path : String) (bytes : List UInt8) (place : List String) (s t : Storage) :
    Prop where
  writes : Writes [place] s t
  admitted : checkPath path = .ok ()
  leads : s.lead path = .ok place
  holds : t.get? place = some (.file bytes)

/-- What saving a text at a path can come to. -/
inductive Ends (path content : String) (s : Storage) : Except Fault Unit → Storage → Prop
  | saved {t : Storage} {place : List String} (h : Wrote path (Stream.bytesOf content) place s t) :
      Ends path content s (.ok ()) t
  | refused (fault : Fault) : Ends path content s (.error fault) s
  | brokenOff {t : Storage} {place : List String} {n : Nat} (fault : Fault)
      (hn : n < (Stream.bytesOf content).length)
      (h : Wrote path ((Stream.bytesOf content).take n) place s t) :
      Ends path content s (.error fault) t

theorem wrote_put {path : String} {place : List String} (hadmitted : checkPath path = .ok ())
    (hlead : s.lead path = .ok place) (hplace : s.get? place ≠ some .folder)
    (bytes : List UInt8) : Wrote path bytes place s (s.put place (.file bytes)) :=
  ⟨writes_put_file hplace bytes, hadmitted, hlead, get?_put_self (ne_nil_of_get? hplace) _ _⟩

theorem lt_of_obstacle? {place : List String} {bytes : List UInt8} {after : Nat} {fault : Fault}
    (h : s.obstacle? place bytes = some (.brokenOff after fault)) : after < bytes.length := by
  have hfilter := (Option.filter_eq_some_iff.1 h).2
  simpa using hfilter

theorem save_of_lead {path content : String} {place : List String}
    (hadmitted : checkPath path = .ok ()) (hlead : s.lead path = .ok place) :
    s.save path content = s.write place (Stream.bytesOf content) := by
  rw [save, hadmitted, ok_bind, hlead]

/-- **Saving a text leaves the whole text, nothing new, or a beginning of it.** -/
theorem save_ends (path content : String) (s : Storage) :
    Ends path content s (s.save path content).1 (s.save path content).2 := by
  cases htarget : (checkPath path >>= fun () => s.lead path) with
  | error fault =>
    rw [save, htarget]
    exact .refused fault
  | ok place =>
    obtain ⟨_, hadmitted, hlead⟩ := bind_eq_ok_iff.1 htarget
    rw [save_of_lead hadmitted hlead, write]
    split
    · exact .refused _
    · next hplace =>
      split
      · exact .saved (wrote_put hadmitted hlead hplace _)
      · exact .refused _
      · next after fault hobstacle =>
        exact .brokenOff fault (lt_of_obstacle? hobstacle) (wrote_put hadmitted hlead hplace _)

example :
    let s : Storage :=
      { entries := [(["a"], .file (Stream.bytesOf "old"))]
        mishap := fun _ _ => some (.brokenOff 2 (.other "no space is left")) }
    ((s.save "a" "xyz").2.load "a").toOption = some (.whole (Stream.bytesOf "xy")) := by
  decide +kernel

theorem wrote_of_save {path content : String} (h : s.save path content = (.ok (), t)) :
    ∃ place, Wrote path (Stream.bytesOf content) place s t := by
  have hends := save_ends path content s
  rw [h] at hends
  cases hends with
  | saved hwrote => exact ⟨_, hwrote⟩

theorem save_eq_ok_iff {path content : String} :
    s.save path content = (.ok (), t) ↔ checkPath path = .ok () ∧
      ∃ place, s.lead path = .ok place ∧ s.get? place ≠ some .folder ∧
        s.obstacle? place (Stream.bytesOf content) = none ∧
        s.put place (.file (Stream.bytesOf content)) = t := by
  constructor
  · intro h
    unfold save at h
    split at h
    · cases h
    · next place htarget =>
      obtain ⟨_, hadmitted, hlead⟩ := bind_eq_ok_iff.1 htarget
      unfold write at h
      split at h
      · cases h
      · next hplace =>
        split at h
        · next hobstacle =>
          exact ⟨hadmitted, place, hlead, hplace, hobstacle, congrArg Prod.snd h⟩
        · cases h
        · cases h
  · rintro ⟨hadmitted, place, hlead, hplace, hobstacle, rfl⟩
    rw [save_of_lead hadmitted hlead, write, if_neg hplace, hobstacle]

/-- A file that could be saved can be saved after another one too, at the same place or elsewhere. -/
theorem exists_save_of_save {path path' content content' : String}
    (h : s.save path content = (.ok (), t)) (h' : s.save path' content' = (.ok (), u)) :
    ∃ v, t.save path' content' = (.ok (), v) := by
  obtain ⟨-, place, hlead, hplace, -, rfl⟩ := save_eq_ok_iff.1 h
  obtain ⟨hadmitted', place', hlead', hplace', hobstacle', -⟩ := save_eq_ok_iff.1 h'
  have hwrites := writes_put_file hplace (Stream.bytesOf content)
  refine ⟨_, save_eq_ok_iff.2 ⟨hadmitted', place', hwrites.lead hlead', ?_, ?_, rfl⟩⟩
  · by_cases hsame : place' = place
    · rw [hsame, get?_put_self (ne_nil_of_get? hplace)]
      exact nofun
    · rwa [get?_put_of_ne hsame]
  · exact hobstacle'

/-- A file is read back as it was left, also after other files were written. -/
theorem Wrote.load {path : String} {bytes : List UInt8} {place : List String}
    (h : Wrote path bytes place s t) (hfile : Path.asksFolder path = false)
    (hafter : Writes places t u) (hm : place ∉ places) :
    u.load path = .ok (.whole bytes) := by
  have hget := (hafter.file_iff hm bytes).2 h.holds
  have hwalk : u.walk path = .ok place :=
    walk_of_lead hfile (hafter.lead (h.writes.lead h.leads)) (by rw [hget]; rfl)
  unfold Storage.load
  refine bind_eq_ok_iff.2 ⟨(), h.admitted, bind_eq_ok_iff.2 ⟨place, hwalk, ?_⟩⟩
  rw [hget]
  rfl

end DeviceConsole.Storage
