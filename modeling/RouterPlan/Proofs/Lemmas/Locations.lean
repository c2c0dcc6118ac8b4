import RouterPlan.Cli.Files
import RouterPlan.Proofs.Lemmas.Lists
import RouterPlan.Proofs.Lemmas.Pieces

/-!
# Where locations lead

A location is followed part by part: a name leads one directory down, and empty parts and dots lead nowhere (`follow_skips`). A place
that was reached is found again by its text (`eq_of_locate_placeText`). Main statement: a location that names a file leads to that name
in the directory around it, however the two are written (`place_of_locate`).
-/

namespace RouterPlan

/-! ## Parts -/

/-- A part that names something. -/
def IsName (part : String) : Prop :=
  part ≠ "" ∧ part ≠ "." ∧ part ≠ ".." ∧ '/' ∉ part.toList

/-- A part that stands for nothing. -/
def IsSkip (part : String) : Prop :=
  part = "" ∨ part = "."

theorem startsWith_slash_iff (text : String) : text.startsWith "/" = true ↔ text.toList.head? = some '/' := by
  rw [String.startsWith_string_iff]
  constructor
  · rintro ⟨rest, hrest⟩
    rw [← hrest]
    rfl
  · intro h
    obtain ⟨rest, hrest⟩ := List.head?_eq_some_iff.1 h
    exact ⟨rest, hrest.symm⟩

theorem endsWith_slash_iff (text : String) : text.endsWith "/" = true ↔ text.toList.getLast? = some '/' := by
  unfold String.endsWith
  rw [String.Slice.endsWith_string_iff, String.copy_toSlice]
  constructor
  · rintro ⟨front, hfront⟩
    rw [← hfront, List.getLast?_append]
    rfl
  · intro h
    obtain ⟨front, hfront⟩ := List.getLast?_eq_some_iff.1 h
    exact ⟨front, hfront.symm⟩

namespace Location

/-- Parts hold no slashes. -/
theorem not_slash_of_mem_parts {location part : String} (h : part ∈ parts location) : '/' ∉ part.toList := by
  obtain ⟨piece, hpiece, rfl⟩ := List.mem_map.1 h
  rw [String.toList_ofList]
  intro hslash
  exact absurd (Text.not_mem_pieces hpiece _ hslash) (by decide)

/-- Parts with slashes between them are the parts of that location. -/
theorem parts_intercalate {ps : List String} (hne : ps ≠ []) (h : ∀ part ∈ ps, '/' ∉ part.toList) :
    parts ("/".intercalate ps) = ps := by
  have hpieces : Text.pieces (· == '/') (['/'].intercalate (ps.map (·.toList))) = ps.map (·.toList) := by
    refine Text.pieces_intercalate (by simpa using hne) (fun piece hpiece d hd => ?_) rfl
    obtain ⟨part, hpart, rfl⟩ := List.mem_map.1 hpiece
    have hslash : d ≠ '/' := fun heq => h part hpart (heq ▸ hd)
    simpa using hslash
  rw [parts, String.toList_intercalate]
  exact (congrArg (List.map String.ofList) hpieces).trans (by simp [Function.comp_def])

/-- A slash in front makes the first part empty, and another part follows. -/
theorem parts_slash (text : String) : parts ("/" ++ text) = "" :: parts text := by
  rw [parts, String.toList_append]
  exact congrArg (List.map String.ofList) (Text.pieces_cons_of_separator rfl text.toList)

/-- A location starts with a slash exactly if its first part is empty and another part follows. -/
theorem startsWith_slash_iff_parts (location : String) :
    location.startsWith "/" = true ↔ ∃ part rest, parts location = "" :: part :: rest := by
  rw [startsWith_slash_iff, parts]
  cases location.toList with
  | nil => simp [Text.pieces]
  | cons c cs =>
    obtain ⟨piece, rest, hpieces⟩ := Text.exists_pieces (· == '/') cs
    by_cases hc : c = '/'
    · subst hc
      rw [Text.pieces_cons_of_separator rfl, hpieces]
      simp
    · rw [Text.pieces_cons (by simpa using hc) hpieces]
      simp [hc]

/-- What is trimmed off the parts stands for nothing. -/
theorem exists_trimParts (ps : List String) : ∃ trail, ps = trimParts ps ++ trail ∧ ∀ part ∈ trail, IsSkip part := by
  cases ps with
  | nil => exact ⟨[], rfl, List.forall_mem_nil _⟩
  | cons first rest =>
    refine ⟨(rest.reverse.takeWhile fun part => part == "" || part == ".").reverse, ?_, fun part hpart => ?_⟩
    · rw [trimParts, List.cons_append, ← List.reverse_append, List.takeWhile_append_dropWhile, List.reverse_reverse]
    · have hskip := List.all_eq_true.1 (List.all_takeWhile (p := fun part => part == "" || part == ".")) part
        (List.mem_reverse.1 hpart)
      simpa [IsSkip] using hskip

end Location

/-! ## Places -/

/-- A place as a text. -/
def placeText (place : List String) : String :=
  "/" ++ "/".intercalate place

/-- The text of a place ends with the slash and the name that were added last. -/
theorem placeText_concat {place : List String} (hne : place ≠ []) (name : String) :
    placeText (place ++ [name]) = placeText place ++ "/" ++ name := by
  rw [placeText, placeText, String.intercalate_append_of_ne_nil hne (List.cons_ne_nil _ _), String.intercalate_singleton]
  simp only [String.append_assoc]

/-- Only the text of the uppermost place ends with a slash. -/
theorem endsWith_placeText_iff {place : List String} (hplace : ∀ name ∈ place, IsName name) :
    (placeText place).endsWith "/" = true ↔ place = [] := by
  rcases List.eq_nil_or_concat place with rfl | ⟨front, name, rfl⟩
  · exact iff_of_true (by decide +kernel) rfl
  · rw [List.concat_eq_append] at hplace ⊢
    obtain ⟨hempty, -, -, hslash⟩ := hplace name (by simp)
    have hfront : ∃ text, placeText (front ++ [name]) = text ++ name := by
      by_cases hne : front = []
      · exact ⟨"/", by rw [hne, List.nil_append, placeText, String.intercalate_singleton]⟩
      · exact ⟨_, placeText_concat hne name⟩
    obtain ⟨text, htext⟩ := hfront
    refine iff_of_false (fun hends => hslash ?_) (by simp)
    rw [htext, endsWith_slash_iff, String.toList_append, List.getLast?_append] at hends
    rcases Option.or_eq_some_iff.1 hends with hlast | ⟨hnone, -⟩
    · exact List.mem_of_getLast? hlast
    · exact absurd hnone (by simpa using hempty)

/-- A name in a directory, as its place is written from the text of the directory. -/
theorem ite_placeText {place : List String} (hplace : ∀ name ∈ place, IsName name) (name : String) :
    (if (placeText place).endsWith "/" then placeText place ++ name else placeText place ++ "/" ++ name) =
      placeText (place ++ [name]) := by
  by_cases hne : place = []
  · rw [if_pos ((endsWith_placeText_iff hplace).2 hne), hne, List.nil_append, placeText, placeText, String.intercalate_singleton]
    rfl
  · rw [if_neg (mt (endsWith_placeText_iff hplace).1 hne), placeText_concat hne]

namespace Disk

variable {disk : Disk} {place place' : List String} {part : String} {ps more : List String}

/-- The parts of a location are followed one after the other. -/
theorem follow_append (disk : Disk) (place : List String) (ps more : List String) :
    disk.follow place (ps ++ more) = disk.follow place ps >>= fun place' => disk.follow place' more := by
  induction ps generalizing place with
  | nil => rfl
  | cons part ps ih =>
    rw [List.cons_append, follow, follow]
    split
    · rfl
    · rfl
    · split
      · exact ih place
      · split
        · exact ih _
        · split
          · rfl
          · exact ih _

/-- The place that a part leads to. -/
def next (place : List String) (part : String) : List String :=
  if part = "" ∨ part = "." then place else if part = ".." then place.dropLast else place ++ [part]

theorem next_of_isSkip (h : IsSkip part) (place : List String) : next place part = place :=
  if_pos h

theorem next_of_isName (h : IsName part) (place : List String) : next place part = place ++ [part] := by
  rw [next, if_neg (not_or.2 ⟨h.1, h.2.1⟩), if_neg h.2.2.1]

/-- From a place of names, a part without slashes leads to a place of names. -/
theorem isName_of_mem_next (hplace : ∀ name ∈ place, IsName name) (hpart : '/' ∉ part.toList) :
    ∀ name ∈ next place part, IsName name := by
  rw [next]
  split
  · exact hplace
  · rename_i hskip
    split
    · exact fun name hname => hplace name (List.dropLast_subset place hname)
    · rename_i hup
      obtain ⟨hempty, hdot⟩ := not_or.1 hskip
      exact List.forall_mem_append.2 ⟨hplace, List.forall_mem_singleton.2 ⟨hempty, hdot, hup, hpart⟩⟩

/-- A part is followed from a directory if it is no longer than a name may be. -/
theorem follow_cons_iff : disk.follow place (part :: ps) = .ok place' ↔
    disk.node? place = some .directory ∧ part.utf8ByteSize ≤ nameLimit ∧ disk.follow (next place part) ps = .ok place' := by
  have hskip : part = "" ∨ part = "." → part.utf8ByteSize ≤ nameLimit := by
    rintro (rfl | rfl) <;> decide
  have hup : "..".utf8ByteSize ≤ nameLimit := by decide
  rw [follow, next]
  cases disk.node? place with
  | none => simp
  | some node =>
    cases node with
    | file text => simp
    | directory =>
      by_cases h : part = "" ∨ part = "."
      · simp [h, hskip h]
      · by_cases h' : part = ".."
        · simp [h', hup]
        · by_cases hlong : nameLimit < part.utf8ByteSize
          · simp [h, h', hlong, Nat.not_le.2 hlong]
          · simp [h, h', hlong, Nat.le_of_not_lt hlong]

/-- Parts that stand for nothing lead nowhere. -/
theorem follow_skips (hskips : ∀ part ∈ ps, IsSkip part) (h : disk.follow place ps = .ok place') : place' = place := by
  induction ps with
  | nil =>
    cases h
    rfl
  | cons part ps ih =>
    obtain ⟨hpart, hrest⟩ := List.forall_mem_cons.1 hskips
    obtain ⟨-, -, h⟩ := follow_cons_iff.1 h
    rw [next_of_isSkip hpart] at h
    exact ih hrest h

/-- Names lead to the place of these names. -/
theorem follow_names (hnames : ∀ part ∈ ps, IsName part) (h : disk.follow place ps = .ok place') : place' = place ++ ps := by
  induction ps generalizing place with
  | nil =>
    cases h
    exact (List.append_nil _).symm
  | cons part ps ih =>
    obtain ⟨hpart, hrest⟩ := List.forall_mem_cons.1 hnames
    obtain ⟨-, -, h⟩ := follow_cons_iff.1 h
    rw [next_of_isName hpart] at h
    rw [ih hrest h, List.append_assoc]
    rfl

/-- From a place of names, parts without slashes lead to a place of names. -/
theorem isName_of_follow (hplace : ∀ name ∈ place, IsName name) (hps : ∀ part ∈ ps, '/' ∉ part.toList)
    (h : disk.follow place ps = .ok place') : ∀ name ∈ place', IsName name := by
  induction ps generalizing place with
  | nil =>
    cases h
    exact hplace
  | cons part ps ih =>
    obtain ⟨hpart, hrest⟩ := List.forall_mem_cons.1 hps
    obtain ⟨-, -, h⟩ := follow_cons_iff.1 h
    exact ih (isName_of_mem_next hplace hpart) hrest h

/-! ## Locations -/

/-- Where locations like this one start. -/
def start (disk : Disk) (location : String) : List String :=
  if location.startsWith "/" then [] else disk.home

variable {location name : String}

/-- A location that leads somewhere is followed from its start. -/
theorem follow_of_locate (h : disk.locate location = .ok place) :
    disk.follow (disk.start location) (Location.parts location) = .ok place := by
  rw [locate] at h
  split at h
  · cases h
  · exact h

/-- Every place that a location leads to is a place of names. -/
theorem isName_of_locate (hhome : ∀ name ∈ disk.home, IsName name) (h : disk.locate location = .ok place) :
    ∀ name ∈ place, IsName name := by
  refine isName_of_follow (fun name hname => ?_) (fun part => Location.not_slash_of_mem_parts) (follow_of_locate h)
  rw [start] at hname
  split at hname
  · cases hname
  · exact hhome name hname

/-- The text of a place leads nowhere else. -/
theorem eq_of_locate_placeText (hplace : ∀ name ∈ place, IsName name) (h : disk.locate (placeText place) = .ok place') :
    place' = place := by
  have hfollow := follow_of_locate h
  have hstart : (placeText place).startsWith "/" = true := by
    rw [startsWith_slash_iff, placeText, String.toList_append]
    rfl
  rw [start, if_pos hstart, placeText, Location.parts_slash] at hfollow
  cases place with
  | nil =>
    have hskips : ∀ part ∈ ["", ""], IsSkip part := by simp [IsSkip]
    exact follow_skips hskips hfollow
  | cons name names =>
    rw [Location.parts_intercalate (List.cons_ne_nil _ _) fun part hpart => (hplace part hpart).2.2.2] at hfollow
    obtain ⟨-, -, hfollow⟩ := follow_cons_iff.1 hfollow
    exact follow_names hplace hfollow

end Disk

namespace Location

variable {location name : String}

/-- A location that names a file has the name before parts that stand for nothing, and the directory around it is where the parts
before the name lead. -/
theorem exists_of_fileName? (h : fileName? location = some name) :
    IsName name ∧ ∃ trail, (∀ part ∈ trail, IsSkip part) ∧
      parts location = (trimParts (parts location)).dropLast ++ name :: trail := by
  obtain ⟨trail, htrail, hskips⟩ := exists_trimParts (parts location)
  rw [fileName?] at h
  split at h
  · rename_i last hlast
    split at h
    · cases h
    · rename_i hname
      cases h
      obtain ⟨front, hfront⟩ := List.getLast?_eq_some_iff.1 hlast
      have hmem : name ∈ parts location := by
        rw [htrail, hfront]
        simp
      simp only [Bool.or_eq_true, beq_iff_eq, not_or] at hname
      refine ⟨⟨hname.1.1, hname.1.2, hname.2, not_slash_of_mem_parts hmem⟩, trail, hskips, ?_⟩
      rw [hfront] at htrail ⊢
      rw [List.dropLast_concat]
      simpa using htrail
  · cases h

end Location

namespace Disk

variable {disk : Disk} {place directory : List String} {location name : String}

/-- The location of a file starts with a slash exactly if the parts before the name do. -/
theorem start_eq {front trail : List String} (hname : IsName name) (hparts : Location.parts location = front ++ name :: trail) :
    disk.start location = if front.head? = some "" then [] else disk.home := by
  have hiff : location.startsWith "/" = true ↔ front.head? = some "" := by
    rw [Location.startsWith_slash_iff_parts, hparts]
    cases front with
    | nil => simp [hname.1]
    | cons first rest => cases rest <;> simp
  rw [start]
  simp only [hiff]

/-- The location of the directory leads where the parts before the name lead. -/
theorem follow_directory {front trail : List String} (hname : IsName name)
    (hfront : (Location.trimParts (Location.parts location)).dropLast = front)
    (hparts : Location.parts location = front ++ name :: trail)
    (h : disk.locate (Location.directory location) = .ok directory) :
    disk.follow (disk.start location) (Location.trimParts front) = .ok directory := by
  have hhead : front.head? = (Location.trimParts front).head? := by cases front <;> rfl
  have hfollow := follow_of_locate h
  rw [start_eq hname hparts, hhead]
  rw [Location.directory, hfront] at hfollow
  split at hfollow
  · rename_i hnone
    have hstart : disk.start "." = disk.home := if_neg (by decide +kernel)
    have hskips : ∀ part ∈ ["."], IsSkip part := by simp [IsSkip]
    rw [hstart] at hfollow
    rw [hnone]
    exact congrArg Except.ok (follow_skips hskips hfollow).symm
  · rename_i hroot
    have hstart : disk.start "/" = [] := if_pos (by decide +kernel)
    rw [hstart] at hfollow
    rw [hroot]
    have hparts : Location.parts "/" = ["", ""] := by decide +kernel
    rw [hparts] at hfollow
    exact (follow_cons_iff.1 hfollow).2.2
  · rename_i hnone hroot
    have hslash : ∀ part ∈ Location.trimParts front, '/' ∉ part.toList := by
      obtain ⟨trail', htrail', -⟩ := Location.exists_trimParts front
      intro part hpart
      have hmem : part ∈ Location.parts location := by
        rw [hparts, htrail']
        exact List.mem_append_left _ (List.mem_append_left _ hpart)
      exact Location.not_slash_of_mem_parts hmem
    have hiff : ("/".intercalate (Location.trimParts front)).startsWith "/" = true ↔
        (Location.trimParts front).head? = some "" := by
      rw [Location.startsWith_slash_iff_parts, Location.parts_intercalate hnone hslash]
      cases hps : Location.trimParts front with
      | nil => simp
      | cons first rest =>
        cases rest with
        | nil =>
          have hne : first ≠ "" := fun heq => hroot (heq ▸ hps)
          simp [hne]
        | cons part rest => simp
    rw [Location.parts_intercalate hnone hslash, start] at hfollow
    simp only [hiff] at hfollow
    exact hfollow

/-- A location that names a file leads to that name in the directory around it. -/
theorem place_of_locate (hname : Location.fileName? location = some name)
    (hdirectory : disk.locate (Location.directory location) = .ok directory) (h : disk.locate location = .ok place) :
    place = directory ++ [name] := by
  obtain ⟨hisName, trail, hskips, hparts⟩ := Location.exists_of_fileName? hname
  generalize hfront : (Location.trimParts (Location.parts location)).dropLast = front at hparts
  obtain ⟨trail', htrail', hskips'⟩ := Location.exists_trimParts front
  have hfollow := follow_of_locate h
  rw [hparts, follow_append] at hfollow
  obtain ⟨around, haround, hrest⟩ := bind_eq_ok_iff.1 hfollow
  rw [htrail', follow_append, follow_directory hisName hfront hparts hdirectory] at haround
  have hsame : around = directory := follow_skips hskips' haround
  obtain ⟨-, -, hrest⟩ := follow_cons_iff.1 hrest
  rw [hsame, next_of_isName hisName] at hrest
  exact follow_skips hskips hrest

end Disk

end RouterPlan
