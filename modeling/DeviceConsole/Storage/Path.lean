import DeviceConsole.Text.Pieces

/-!
Paths as texts: parts between slashes.

An empty part and the part `.` lead nowhere; `..` is resolved only while walking, because what it
means depends on what is there.
-/
namespace DeviceConsole.Path

def isAbsolute (path : String) : Bool :=
  path.toList.head? = some '/'

/-- The parts of a path in order, without the empty ones. -/
def parts (path : String) : List String :=
  ((Text.split '/' path.toList).filter (· ≠ [])).map String.ofList

/-- Whether a path ends with a slash, which asks for a folder. -/
def asksFolder (path : String) : Bool :=
  path.toList.getLast? = some '/'

/-- The last part that is not `.`. -/
def lastPart? (path : String) : Option String :=
  ((parts path).filter (· ≠ ".")).getLast?

/-- What stands behind the last dot of a file's name. A dot at its start is part of the name. -/
def extension? (path : String) : Option String := do
  let name ← lastPart? path
  if name = ".." then none
  else
    let reversed := name.toList.reverse
    let ending := reversed.takeWhile (· != '.')
    match reversed.drop ending.length with
    | [] | [_] => none
    | _ => some (String.ofList ending.reverse)

/-- The path of a name in a folder. -/
def join (folder name : String) : String :=
  if folder.isEmpty then name
  else if asksFolder folder then folder ++ name
  else folder ++ "/" ++ name

/-! ### Laws -/

/-- A text that can stand as one part of a path. -/
def IsName (name : String) : Prop := name.toList ≠ [] ∧ '/' ∉ name.toList

instance : DecidablePred IsName := fun _ => inferInstanceAs (Decidable (_ ∧ _))

/-- Between a folder and a name in it there is a slash, unless the folder is the empty path. -/
theorem exists_join {folder : String} (h : folder ≠ "") (name : String) :
    ∃ outer, (join folder name).toList = outer ++ '/' :: name.toList ∧
      (folder.toList = outer ∨ folder.toList = outer ++ ['/']) := by
  have hne : ¬ folder.isEmpty = true := by simpa using h
  rw [join, if_neg hne]
  split
  · next hslash =>
    obtain ⟨outer, houter⟩ := List.getLast?_eq_some_iff.1 (of_decide_eq_true hslash)
    exact ⟨outer, by simp [houter], .inr houter⟩
  · exact ⟨folder.toList, by simp, .inl rfl⟩

theorem join_empty (name : String) : join "" name = name := rfl

theorem parts_of_isName {name : String} (h : IsName name) : parts name = [name] := by
  obtain ⟨hne, hslash⟩ := h
  simp [parts, Text.split_of_not_mem hslash, hne]

/-- The parts of a name in a folder are those of the folder and the name. -/
theorem parts_join (folder : String) {name : String} (h : IsName name) :
    parts (join folder name) = parts folder ++ [name] := by
  by_cases hfolder : folder = ""
  · rw [hfolder, join_empty, parts_of_isName h]
    rfl
  · obtain ⟨outer, hjoin, houter⟩ := exists_join hfolder name
    have hname := parts_of_isName h
    have hparts : parts folder =
        ((Text.split '/' outer).filter (· ≠ [])).map String.ofList := by
      rcases houter with houter | houter
      · rw [parts, houter]
      · rw [parts, houter, Text.split_append_cons, List.filter_append]
        simp [Text.split]
    rw [parts] at hname
    rw [parts, hjoin, Text.split_append_cons, List.filter_append, List.map_append, hname, hparts]

/-- A name in a folder is looked up from where the folder is. -/
theorem isAbsolute_join (folder : String) {name : String} (h : IsName name) :
    isAbsolute (join folder name) = isAbsolute folder := by
  obtain ⟨hne, hslash⟩ := h
  by_cases hfolder : folder = ""
  · rw [hfolder, join_empty]
    apply decide_eq_false
    intro hhead
    exact hslash (List.mem_of_mem_head? hhead)
  · obtain ⟨outer, hjoin, houter⟩ := exists_join hfolder name
    have hchars : folder.toList ≠ [] := fun hnil => hfolder (String.toList_eq_nil_iff.1 hnil)
    rw [isAbsolute, isAbsolute, hjoin]
    rcases houter with houter | houter
    · rw [houter] at hchars ⊢
      rw [List.head?_append, List.head?_eq_some_head hchars, Option.some_or]
    · rw [houter]
      cases outer <;> rfl

theorem asksFolder_join (folder : String) {name : String} (h : IsName name) :
    asksFolder (join folder name) = false := by
  obtain ⟨hne, hslash⟩ := h
  have hlast (before : List Char) : (before ++ name.toList).getLast? ≠ some '/' := by
    rw [List.getLast?_append, List.getLast?_eq_some_getLast hne, Option.some_or]
    intro hlast
    exact hslash (Option.some_inj.1 hlast ▸ List.getLast_mem hne)
  apply decide_eq_false
  by_cases hfolder : folder = ""
  · rw [hfolder, join_empty]
    exact hlast []
  · obtain ⟨outer, hjoin, -⟩ := exists_join hfolder name
    rw [hjoin, List.append_cons]
    exact hlast (outer ++ ['/'])

example : extension? "a/in.json.gz" = some "gz" := by decide +kernel
example : extension? ".gz" = none := by decide +kernel
example : extension? "in.gz/." = some "gz" := by decide +kernel

end DeviceConsole.Path
