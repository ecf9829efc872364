import Mcpace.ConfigEdit.Isolation

/-!
Owns what an installation in a YAML configuration leaves of the other entries of `mcp_servers` and
of the lines outside it.

The document gives each line to an entry or to the outside. The editor has no parser: it takes the
lines between its markers, or else the first line of the section that reads as the key, at any
depth, and everything up to the next key line of the same indentation.

Does not own: which of its lines a YAML parser gives to an entry. A comment is given to the entry it
precedes, to the entry it follows or to the outside by the document.
-/

namespace Mcpace.ConfigEdit

open Library Checks Delimiters List Option

/-! ### Documents -/

structure Entry where
  key : List Char
  leading : List (List Char)
  head : List Char
  body : List (List Char)

def Entry.lines (entry : Entry) : List (List Char) := entry.leading ++ entry.head :: entry.body

/-- A text by lines; `lead` and `gap` are comments before the first entry and behind the last. -/
structure Document where
  before : List (List Char)
  header : List Char
  lead : List (List Char)
  entries : List Entry
  gap : List (List Char)
  after : List (List Char)

namespace Document

def inner (document : Document) : List (List Char) :=
  document.lead ++ (document.entries.flatMap Entry.lines ++ document.gap)

def lines (document : Document) : List (List Char) :=
  document.before ++ (document.header :: (document.inner ++ document.after))

def text (document : Document) : List Char := document.lines.flatten

def Lined (document : Document) : Prop := splitInclusive '\n' document.text = document.lines

instance (document : Document) : Decidable document.Lined :=
  inferInstanceAs (Decidable (_ = _))

def label (may : Bool) (lines : List (List Char)) : List (List Char × Bool) :=
  lines.map (fun line => (line, may))

/-- The lines, each with whether an installation of the key may change it. -/
def labelled (document : Document) (key : List Char) : List (List Char × Bool) :=
  label false document.before ++ ((document.header, true) :: (label true document.lead ++
    (document.entries.flatMap (fun entry => label (entry.key = key) entry.lines) ++
      (label false document.gap ++ label false document.after))))

/-- The lines outside and those of the other entries. -/
def neighbours (document : Document) (key : List Char) : List (List Char) :=
  ((document.labelled key).filter (fun line => !line.2)).map Prod.fst

/-- The place of a line behind others. -/
def width (labels : List (List Char × Bool)) : Nat := (labels.map Prod.fst).flatten.length

/-- Every line outside and of another entry meets the condition on its range. -/
def ForNeighbours (document : Document) (key : List Char) (good : Nat → Nat → Prop) : Prop :=
  ∀ front line back, document.labelled key = front ++ (line, false) :: back →
    good (width front) (width front + line.length)

def NeighboursKept (document : Document) (key : List Char) (plan : Plan) : Prop :=
  document.ForNeighbours key plan.Keeps

/-- None of the ranges overlaps a line of a neighbour. -/
def TakesOwn (document : Document) (key : List Char) (ranges : List (Nat × Nat)) : Prop :=
  ∀ range ∈ ranges, document.ForNeighbours key (Apart range)

theorem map_label (may : Bool) (lines : List (List Char)) :
    (label may lines).map Prod.fst = lines := by
  rw [label, List.map_map]
  exact List.map_id lines

theorem map_labelled (document : Document) (key : List Char) :
    (document.labelled key).map Prod.fst = document.lines := by
  have own : ∀ entries : List Entry,
      (entries.flatMap (fun entry => label (entry.key = key) entry.lines)).map Prod.fst =
        entries.flatMap Entry.lines := by
    intro entries
    induction entries with
    | nil => rfl
    | cons entry entries ih =>
      rw [flatMap_cons, flatMap_cons, map_append, map_label, ih]
  simp only [labelled, lines, inner, map_append, map_cons, map_label, own, List.append_assoc]

variable {document : Document} {key : List Char} {configPath : String}

theorem Lined.isSplit (lined : document.Lined) : IsSplit '\n' document.lines := by
  have split := isSplit_splitInclusive '\n' document.text
  rwa [lined] at split

variable {front back : List (List Char × Bool)}

theorem Lined.line_bounds (lined : document.Lined) {line : List Char} {may : Bool}
    (shape : document.labelled key = front ++ (line, may) :: back) :
    0 < line.length ∧ width front + line.length ≤ document.text.length := by
  have parts := document.map_labelled key
  rw [shape, map_append, map_cons] at parts
  have member : line ∈ document.lines := by
    rw [← parts]
    exact mem_append_right _ mem_cons_self
  refine ⟨length_pos_of_ne_nil (lined.isSplit.filled line member), ?_⟩
  rw [text, ← parts, flatten_append, flatten_cons, List.length_append, List.length_append, width]
  dsimp only
  omega

variable {plan : Plan}

/-- Neighbours are kept exactly when the editor takes none of their lines. -/
theorem neighboursKept_iff {serverUrl : String} (lined : document.Lined)
    (planned : (Operation.installYaml serverUrl).plan document.text key configPath = .ok plan) :
    document.NeighboursKept key plan ↔ document.TakesOwn key
      ((Operation.installYaml serverUrl).territory document.text key configPath) := by
  constructor
  · intro kept range taken front line back shape
    have bounds := lined.line_bounds shape
    exact (keeps_iff_apart planned (by omega) bounds.2).mp (kept front line back shape) range taken
  · intro own front line back shape
    have bounds := lined.line_bounds shape
    refine (keeps_iff_apart planned (by omega) bounds.2).mpr ?_
    exact fun range taken => own range taken front line back shape

/-! ### Order -/

/-- Lines apart from a range are pieces of the text with that range replaced, in their order. -/
theorem exists_pieces {first last : Nat} (added : List Char) (ordered : first ≤ last)
    (labels : List (List Char × Bool)) (offset : Nat)
    (apart : ∀ front line back, labels = front ++ (line, false) :: back →
      Apart (first, last) (offset + width front) (offset + width front + line.length)) :
    ∃ pieces : List (List Char),
      pieces.flatten = (labels.map Prod.fst).flatten.take (first - offset) ++
        (added ++ (labels.map Prod.fst).flatten.drop (last - offset)) ∧
      ((labels.filter (fun line => !line.2)).map Prod.fst).Sublist pieces := by
  induction labels generalizing offset with
  | nil => exact ⟨[added], by simp, nil_sublist _⟩
  | cons label labels ih =>
    obtain ⟨line, may⟩ := label
    have later : ∀ front other back, labels = front ++ (other, false) :: back →
        Apart (first, last) (offset + line.length + width front)
          (offset + line.length + width front + other.length) := by
      intro front other back shape
      have here := apart ((line, may) :: front) other back (by rw [shape, cons_append])
      rw [width, map_cons, flatten_cons, List.length_append] at here
      rwa [width, Nat.add_assoc offset line.length]
    have here : may = false → Apart (first, last) offset (offset + line.length) := by
      intro neighbour
      exact apart [] line labels (by rw [neighbour, nil_append])
    rw [map_cons, flatten_cons, take_append, drop_append]
    dsimp only
    by_cases early : offset + line.length ≤ first
    · -- the line lies before the range
      obtain ⟨pieces, same, order⟩ := ih (offset + line.length) later
      have whole : line.take (first - offset) = line := take_of_length_le (by omega)
      have gone : line.drop (last - offset) = [] := drop_of_length_le (by omega)
      refine ⟨line :: pieces, ?_, ?_⟩
      · rw [flatten_cons, same, whole, gone, Nat.sub_add_eq, Nat.sub_add_eq,
          List.append_assoc, nil_append]
      · cases may with
        | true => exact order.cons line
        | false => exact order.cons_cons line
    · by_cases late : last ≤ offset
      · -- the line and all behind it lie behind the range
        refine ⟨added :: line :: labels.map Prod.fst, ?_, ?_⟩
        · have short : first - offset = 0 := by omega
          rw [short, Nat.sub_eq_zero_of_le late]
          simp
        · have whole : ((((line, may) :: labels).filter (fun line => !line.2)).map
              Prod.fst).Sublist (((line, may) :: labels).map Prod.fst) :=
            filter_sublist.map Prod.fst
          exact whole.cons added
      · -- the range takes from the line, which is no neighbour's
        have own : may = true := by
          cases may with
          | true => rfl
          | false =>
            rcases here rfl with before | behind
            · exact absurd before early
            · exact absurd behind late
        rw [own]
        by_cases ends : offset + line.length ≤ last
        · obtain ⟨pieces, same, order⟩ := ih (offset + line.length) later
          have gone : line.drop (last - offset) = [] := drop_of_length_le (by omega)
          have short : first - (offset + line.length) = 0 := by omega
          refine ⟨line.take (first - offset) :: pieces, ?_, order.cons _⟩
          rw [flatten_cons, same, gone, Nat.sub_add_eq, ← Nat.sub_add_eq first, short,
            Nat.sub_add_eq, take_zero, append_nil, nil_append, nil_append]
        · refine ⟨(line.take (first - offset) ++ (added ++ line.drop (last - offset))) ::
            labels.map Prod.fst, ?_, ?_⟩
          · have short : first - offset - line.length = 0 := by omega
            have within : last - offset - line.length = 0 := by omega
            rw [short, within]
            simp
          · have others : ((labels.filter (fun line => !line.2)).map Prod.fst).Sublist
                (labels.map Prod.fst) := filter_sublist.map Prod.fst
            exact others.cons _

/-! ### Regular documents -/

/-- The shape the editor's lines have in a block mapping: the keys of the entries at one
indentation, everything below them deeper, and comments elsewhere. -/
structure Regular (document : Document) (indentation : Nat) : Prop where
  indented : 0 < indentation
  before : ∀ line ∈ document.before, readYamlMappingKey line ≠ some (0, mcpServersKey)
  header : readYamlMappingKey document.header = some (0, mcpServersKey)
  lead : ∀ line ∈ document.lead, readYamlMappingKey line = none
  leading : ∀ entry ∈ document.entries, ∀ line ∈ entry.leading, readYamlMappingKey line = none
  head : ∀ entry ∈ document.entries, readYamlMappingKey entry.head = some (indentation, entry.key)
  body : ∀ entry ∈ document.entries, ∀ line ∈ entry.body,
    ∀ place ∈ readYamlMappingKey line, indentation < place.1
  unique : (document.entries.map Entry.key).Nodup
  gap : ∀ line ∈ document.gap, readYamlMappingKey line = none
  after : ∀ line ∈ document.after.head?, (readYamlMappingKey line).map Prod.fst = some 0

/-- No comment that belongs to what follows stands behind the first of the entries. -/
def FollowedAtOnce (document : Document) : List Entry → Prop
  | [] => True
  | [_] => document.gap = []
  | _ :: next :: _ => next.leading = []

instance (document : Document) (entries : List Entry) :
    Decidable (document.FollowedAtOnce entries) :=
  match entries with
  | [] => inferInstanceAs (Decidable True)
  | [_] => inferInstanceAs (Decidable (_ = _))
  | _ :: _ :: _ => inferInstanceAs (Decidable (_ = _))

/-- No line below an entry before the key's own reads as the key, and no comment behind the key's
entry belongs to what follows. -/
def Clear (document : Document) (key : List Char) : Prop :=
  (∀ entry ∈ document.entries.takeWhile (fun entry => entry.key ≠ key), ∀ line ∈ entry.body,
    (readYamlMappingKey line).map Prod.snd ≠ some key) ∧
  document.FollowedAtOnce (document.entries.dropWhile (fun entry => entry.key ≠ key))

instance (document : Document) (key : List Char) : Decidable (document.Clear key) :=
  inferInstanceAs (Decidable (_ ∧ _))

/-- No line reads as the key. -/
def Unread (key : List Char) (lines : List (List Char)) : Prop :=
  ∀ line ∈ lines, (readYamlMappingKey line).map Prod.snd ≠ some key

section Loops

variable {lines rest : List (List Char)} {line : List Char} {offset sectionEnd : Nat}
  {found : Nat × Nat}

theorem unread_of_silent (silent : ∀ line ∈ lines, readYamlMappingKey line = none) :
    Unread key lines := by
  intro line member
  rw [silent line member]
  exact nofun

theorem Unread.append (first : Unread key lines) (second : Unread key rest) :
    Unread key (lines ++ rest) :=
  forall_mem_append.mpr ⟨first, second⟩

theorem Unread.namesEntry (unread : Unread key lines) : ∀ line ∈ lines, ¬NamesEntry key line := by
  rintro line member ⟨indent, -, read⟩
  apply unread line member
  rw [read]
  rfl

theorem entryLoop_hit {indent : Nat} (read : readYamlMappingKey line = some (indent, key))
    (indented : 0 < indent) :
    entryLoop key sectionEnd (line :: rest) offset none =
      entryLoop key sectionEnd rest (offset + line.length) (some (offset, indent)) := by
  rw [entryLoop, read]
  dsimp only
  rw [if_pos ⟨indented, rfl⟩]

/-- An entry that was begun ends somewhere behind. -/
theorem entryLoop_open (fits : offset + lines.flatten.length = sectionEnd) :
    ∃ stop, entryLoop key sectionEnd lines offset (some found) = some (found.1, stop) ∧
      offset ≤ stop := by
  induction lines generalizing offset with
  | nil => exact ⟨sectionEnd, rfl, by omega⟩
  | cons line lines ih =>
    rw [flatten_cons, List.length_append] at fits
    by_cases ends : (readYamlMappingKey line).map Prod.fst = some found.2
    · exact ⟨offset, by rw [entryLoop, if_pos ends], Nat.le_refl _⟩
    · obtain ⟨stop, located, behind⟩ := @ih (offset + line.length) (by omega)
      exact ⟨stop, by rw [entryLoop, if_neg ends, located], by omega⟩

end Loops

variable {indentation : Nat}

theorem Regular.inner_read (regular : document.Regular indentation) :
    ∀ line ∈ document.inner, (readYamlMappingKey line).map Prod.fst ≠ some 0 := by
  have silent : ∀ line : List Char, readYamlMappingKey line = none →
      (readYamlMappingKey line).map Prod.fst ≠ some 0 := by
    intro line unread
    rw [unread]
    exact nofun
  intro line member
  rw [inner, mem_append, mem_append, mem_flatMap] at member
  rcases member with isLead | ⟨entry, isEntry, isLine⟩ | isGap
  · exact silent line (regular.lead line isLead)
  · rw [Entry.lines, mem_append, mem_cons] at isLine
    rcases isLine with isLeading | isHead | isBody
    · exact silent line (regular.leading entry isEntry line isLeading)
    · rw [isHead, regular.head entry isEntry]
      exact fun same => absurd (some_inj.mp same) (Nat.ne_of_gt regular.indented)
    · intro zero
      obtain ⟨place, read, same⟩ := map_eq_some_iff.mp zero
      have deeper := regular.body entry isEntry line isBody place read
      omega
  · exact silent line (regular.gap line isGap)

/-- Where the body of the section starts, and where it ends. -/
def bodyStart (document : Document) : Nat :=
  document.before.flatten.length + document.header.length

def sectionEnd (document : Document) : Nat := document.bodyStart + document.inner.flatten.length

theorem Regular.locateSection (regular : document.Regular indentation) (lined : document.Lined) :
    locateYamlTopLevelSection document.text mcpServersKey =
      some (document.before.flatten.length, document.bodyStart, document.sectionEnd) := by
  have located := @sectionLoop_segment _ _ _ _ _ 0
    ⟨rfl, regular.before, regular.header, regular.inner_read, regular.after⟩
  rw [locateYamlTopLevelSection, lined, lines, located, bodyStart, sectionEnd, bodyStart]
  simp [Nat.add_assoc]

theorem Lined.slice_inner (lined : document.Lined) :
    splitInclusive '\n' (slice document.text document.bodyStart document.sectionEnd) =
      document.inner := by
  have shape : linesOf document.text =
      (document.before ++ [document.header]) ++ (document.inner ++ document.after) := by
    rw [List.append_assoc, singleton_append]
    exact lined
  have taken := linesOf_slice shape
  simp only [flatten_append, flatten_singleton, List.length_append] at taken
  exact taken

/-- Without a marker the editor takes what the loop over the section finds. -/
theorem Regular.territory (regular : document.Regular indentation) (lined : document.Lined)
    (unmarked : find (beginMarker key) document.text = none) :
    (Operation.installYaml serverUrl).territory document.text key configPath =
      [(entryLoop key document.sectionEnd document.inner document.bodyStart none).getD
        (document.sectionEnd, document.sectionEnd)] := by
  have absent : locateManagedBlock document.text key configPath = .ok none := by
    rw [locateManagedBlock, locateMarkers, unmarked]
    rfl
  rw [Operation.territory, absent]
  dsimp only
  rw [regular.locateSection lined]
  dsimp only
  rw [locateYamlSectionEntry, lined.slice_inner]
  cases entryLoop key document.sectionEnd document.inner document.bodyStart none with
  | none => rfl
  | some entry => rfl

/-! ### Ranges of lines -/

theorem width_append (front back : List (List Char × Bool)) :
    width (front ++ back) = width front + width back := by
  rw [width, width, width, map_append, flatten_append, List.length_append]

theorem width_cons (label : List Char × Bool) (labels : List (List Char × Bool)) :
    width (label :: labels) = label.1.length + width labels := by
  rw [width, width, map_cons, flatten_cons, List.length_append]

theorem width_label (may : Bool) (lines : List (List Char)) :
    width (label may lines) = lines.flatten.length := by
  rw [width, map_label]

/-- A range of whole lines is apart from every neighbour exactly when none of its lines is one. -/
theorem apart_iff_owned {middle : List (List Char × Bool)}
    (shape : document.labelled key = front ++ (middle ++ back)) (lined : document.Lined) :
    document.ForNeighbours key (Apart (width front, width front + width middle)) ↔
      ∀ label ∈ middle, label.2 = true := by
  constructor
  · intro apart label member
    obtain ⟨line, may⟩ := label
    obtain ⟨early, later, rfl⟩ := append_of_mem member
    cases may with
    | true => rfl
    | false =>
      have place : document.labelled key =
          (front ++ early) ++ (line, false) :: (later ++ back) := by
        rw [shape, List.append_assoc, List.append_assoc, cons_append]
      have bounds := lined.line_bounds place
      have overlap := apart _ line _ place
      rw [Apart, width_append, width_append, width_cons] at overlap
      dsimp only at overlap
      omega
  · intro owned early line later place
    rw [shape] at place
    rcases append_eq_append_iff.mp place with ⟨extra, isFront, isRest⟩ | ⟨extra, isFront, isRest⟩
    · -- the neighbour lies behind the front
      right
      rcases append_eq_append_iff.mp isRest with ⟨more, isMiddle, _⟩ | ⟨more, isMiddle, isBack⟩
      · rw [isFront, isMiddle, width_append, width_append]
        dsimp only
        omega
      · cases more with
        | nil =>
          rw [append_nil] at isMiddle
          rw [isFront, isMiddle, width_append]
        | cons label more =>
          have same : label = (line, false) := (cons_eq_cons.mp isBack).1.symm
          have member : label ∈ middle := by
            rw [isMiddle]
            exact mem_append_right _ mem_cons_self
          have own := owned label member
          rw [same] at own
          cases own
    · cases extra with
      | nil =>
        -- the neighbour is the first line behind the front
        rw [append_nil] at isFront
        rw [nil_append] at isRest
        cases middle with
        | nil =>
          right
          rw [isFront]
          exact Nat.le_refl _
        | cons label middle =>
          have same : label = (line, false) := (cons_eq_cons.mp isRest).1.symm
          have own := owned label mem_cons_self
          rw [same] at own
          cases own
      | cons label extra =>
        left
        have same : label = (line, false) := (cons_eq_cons.mp isRest).1.symm
        rw [isFront, width_append, width_cons, same]
        dsimp only
        omega

/-! ### The entry of a regular document -/

section Entries

variable {indentation : Nat} {front rest : List Entry}

/-- The labels of entries none of which is the key's. -/
theorem label_others (others : ∀ entry ∈ front, entry.key ≠ key) :
    front.flatMap (fun entry => label (entry.key = key) entry.lines) =
      label false (front.flatMap Entry.lines) := by
  induction front with
  | nil => rfl
  | cons entry front ih =>
    obtain ⟨first, later⟩ := forall_mem_cons.mp others
    rw [flatMap_cons, flatMap_cons, ih later, decide_eq_false first,
      label, label, label, map_append]

/-- The labels up to the first entry. -/
def opening (document : Document) : List (List Char × Bool) :=
  label false document.before ++ ((document.header, true) :: label true document.lead)

theorem width_opening (document : Document) :
    width document.opening = document.bodyStart + document.lead.flatten.length := by
  rw [opening, width_append, width_cons, width_label, width_label, bodyStart, Nat.add_assoc]

theorem labelled_split (entries : document.entries = front ++ rest)
    (others : ∀ entry ∈ front, entry.key ≠ key) :
    document.labelled key = document.opening ++ (label false (front.flatMap Entry.lines) ++
      (rest.flatMap (fun entry => label (entry.key = key) entry.lines) ++
        (label false document.gap ++ label false document.after))) := by
  rw [labelled, entries, flatMap_append, label_others others, opening]
  simp only [List.append_assoc, cons_append]

theorem inner_split (entries : document.entries = front ++ rest) :
    document.inner = (document.lead ++ front.flatMap Entry.lines) ++
      (rest.flatMap Entry.lines ++ document.gap) := by
  rw [inner, entries, flatMap_append, List.append_assoc, List.append_assoc]

variable (regular : document.Regular indentation)

include regular

/-- Entries before the key's own, below which no line reads as the key. -/
theorem Regular.front_unread (part : ∀ entry ∈ front, entry ∈ document.entries)
    (others : ∀ entry ∈ front, entry.key ≠ key)
    (clear : ∀ entry ∈ front, Unread key entry.body) : Unread key (front.flatMap Entry.lines) := by
  intro line member
  obtain ⟨entry, isEntry, isLine⟩ := mem_flatMap.mp member
  rw [Entry.lines, mem_append, mem_cons] at isLine
  rcases isLine with isLeading | isHead | isBody
  · rw [regular.leading entry (part entry isEntry) line isLeading]
    exact nofun
  · rw [isHead, regular.head entry (part entry isEntry)]
    exact fun same => others entry isEntry (some_inj.mp same)
  · exact clear entry isEntry line isBody

variable {entry : Entry}

/-- The range of the entry: its own line, what is below it, and the comments behind it. -/
theorem Regular.entryLoop_eq {skipped following remaining : List (List Char)}
    (isEntry : entry ∈ document.entries) (isKey : entry.key = key)
    (unread : Unread key skipped)
    (silent : ∀ line ∈ following, readYamlMappingKey line = none)
    (stops : ∀ line ∈ remaining.head?, (readYamlMappingKey line).map Prod.fst = some indentation)
    (shape : document.inner = skipped ++ (entry.head :: ((entry.body ++ following) ++ remaining))) :
    entryLoop key document.sectionEnd document.inner document.bodyStart none =
      some (document.bodyStart + skipped.flatten.length,
        document.bodyStart + skipped.flatten.length + entry.head.length +
          (entry.body ++ following).flatten.length) := by
  have deeper : ∀ line ∈ entry.body ++ following,
      (readYamlMappingKey line).map Prod.fst ≠ some indentation := by
    intro line member same
    rcases mem_append.mp member with isBody | isFollowing
    · obtain ⟨place, read, equal⟩ := map_eq_some_iff.mp same
      have below := regular.body entry isEntry line isBody place read
      omega
    · rw [silent line isFollowing] at same
      cases same
  have read := regular.head entry isEntry
  rw [isKey] at read
  have segment : EntryLines key document.inner skipped entry.head (entry.body ++ following)
      remaining := by
    refine ⟨shape, unread.namesEntry, ⟨indentation, regular.indented, read⟩, ?_, ?_⟩
    · rw [read]
      exact deeper
    · rw [read]
      exact stops
  have located := @entryLoop_segment _ _ _ _ _ _ document.bodyStart document.sectionEnd segment rfl
  rw [located]
  simp [Nat.add_assoc]

/-- What stands behind the key's entry: comments that belong to what follows, and a line the loop
stops at. -/
theorem Regular.following {more : List Entry} (entries : document.entries = front ++ entry :: more)
    (isKey : entry.key = key) :
    ∃ following remaining : List (List Char), ∃ behind : List (List Char × Bool),
      (∀ line ∈ following, readYamlMappingKey line = none) ∧
      (∀ line ∈ remaining.head?, (readYamlMappingKey line).map Prod.fst = some indentation) ∧
      more.flatMap Entry.lines ++ document.gap = following ++ remaining ∧
      more.flatMap (fun entry => label (entry.key = key) entry.lines) ++
        (label false document.gap ++ label false document.after) = label false following ++ behind ∧
      (document.FollowedAtOnce (entry :: more) ↔ following = []) := by
  cases more with
  | nil =>
    exact ⟨document.gap, [], label false document.after, regular.gap, nofun,
      (append_nil _).symm, rfl, Iff.rfl⟩
  | cons next others =>
    have isNext : next ∈ document.entries := by
      rw [entries]
      simp
    have differs : next.key ≠ key := by
      have unique := regular.unique
      rw [entries, map_append, map_cons, map_cons] at unique
      have behind := (nodup_cons.mp unique.of_append_right).1
      rw [mem_cons, not_or] at behind
      exact fun same => behind.1 (isKey.trans same.symm)
    refine ⟨next.leading, next.head :: (next.body ++ (others.flatMap Entry.lines ++
      document.gap)), label false (next.head :: next.body) ++ (others.flatMap (fun entry =>
        label (entry.key = key) entry.lines) ++ (label false document.gap ++
          label false document.after)), regular.leading next isNext, ?_, ?_, ?_, Iff.rfl⟩
    · intro line first
      cases first
      rw [regular.head next isNext]
      rfl
    · rw [flatMap_cons, Entry.lines]
      simp only [List.append_assoc, cons_append]
    · rw [flatMap_cons, Entry.lines, decide_eq_false differs]
      simp only [label, map_append, List.append_assoc]

variable (lined : document.Lined) (unmarked : find (beginMarker key) document.text = none)
  (entries : document.entries = front ++ rest) (others : ∀ entry ∈ front, entry.key ≠ key)

include lined unmarked entries others

/-- A line below another entry that reads as the key is taken for it. -/
theorem Regular.not_takesOwn (nested : ∃ line ∈ front.flatMap Entry.lines,
    (readYamlMappingKey line).map Prod.snd = some key) : ¬document.TakesOwn key
    ((Operation.installYaml serverUrl).territory document.text key configPath) := by
  intro own
  obtain ⟨named, isNamed, names⟩ := nested
  have present : ((front.flatMap Entry.lines).find? (fun line =>
      (readYamlMappingKey line).map Prod.snd = some key)).isSome := by
    rw [List.find?_isSome]
    exact ⟨named, isNamed, decide_eq_true names⟩
  obtain ⟨hit, found⟩ := isSome_iff_exists.mp present
  obtain ⟨reads, early, later, region, unread⟩ := List.find?_eq_some_iff_append.mp found
  obtain ⟨⟨indent, name⟩, read, isKey⟩ := map_eq_some_iff.mp (of_decide_eq_true reads)
  dsimp only at isKey
  rw [isKey] at read
  have parts := inner_split entries
  have indented : 0 < indent := by
    have member : hit ∈ document.inner := by
      rw [parts, region]
      simp
    have deeper := regular.inner_read hit member
    rw [read] at deeper
    exact Nat.pos_of_ne_zero (fun zero => deeper (congrArg some zero))
  have skipped : Unread key (document.lead ++ early) :=
    (unread_of_silent regular.lead).append (fun line isEarly same => by
      simpa [same] using unread line isEarly)
  -- the range starts at the line and reaches behind it
  have shape : document.inner = (document.lead ++ early) ++
      (hit :: (later ++ (rest.flatMap Entry.lines ++ document.gap))) := by
    rw [parts, region]
    simp
  obtain ⟨stop, located, behind⟩ :
      ∃ stop, entryLoop key document.sectionEnd document.inner document.bodyStart none =
        some (document.bodyStart + (document.lead ++ early).flatten.length, stop) ∧
        document.bodyStart + (document.lead ++ early).flatten.length + hit.length ≤ stop := by
    rw [shape, entryLoop_skip skipped.namesEntry, entryLoop_hit read indented]
    apply entryLoop_open
    simp only [sectionEnd, shape, flatten_append, flatten_cons, List.length_append]
    omega
  have place : document.labelled key = (document.opening ++ label false early) ++ (hit, false) ::
      (label false later ++ (rest.flatMap (fun entry => label (entry.key = key) entry.lines) ++
        (label false document.gap ++ label false document.after))) := by
    rw [labelled_split entries others, region]
    simp [label]
  have bounds := lined.line_bounds place
  have taken : (document.bodyStart + (document.lead ++ early).flatten.length, stop) ∈
      (Operation.installYaml serverUrl).territory document.text key configPath := by
    rw [regular.territory lined unmarked, located]
    exact mem_singleton_self _
  have apart := own _ taken _ hit _ place
  rw [Apart, width_append, width_opening, width_label] at apart
  rw [flatten_append, List.length_append] at apart behind
  dsimp only at apart
  omega

/-- Without such lines the range starts at the key's own line and ends at the next entry. -/
theorem Regular.takesOwn_iff (clear : ∀ entry ∈ front, Unread key entry.body)
    (own : ∀ entry ∈ rest.head?, entry.key = key) :
    document.TakesOwn key
    ((Operation.installYaml serverUrl).territory document.text key configPath) ↔ document.FollowedAtOnce rest := by
  have part : ∀ entry ∈ front, entry ∈ document.entries := by
    intro entry member
    rw [entries]
    exact mem_append_left _ member
  have unread : Unread key (document.lead ++ front.flatMap Entry.lines) :=
    (unread_of_silent regular.lead).append (regular.front_unread part others clear)
  have labels := labelled_split entries others
  rw [TakesOwn, regular.territory lined unmarked, forall_mem_singleton]
  cases rest with
  | nil =>
    have shape : document.inner =
        (document.lead ++ front.flatMap Entry.lines) ++ (document.gap ++ []) := by
      rw [inner_split entries, flatMap_nil, nil_append, append_nil]
    have located : entryLoop key document.sectionEnd document.inner document.bodyStart none =
        none := by
      rw [shape, entryLoop_skip unread.namesEntry,
        entryLoop_skip (unread_of_silent regular.gap).namesEntry]
      rfl
    have place : document.labelled key = (document.opening ++ (label false
        (front.flatMap Entry.lines) ++ label false document.gap)) ++
          ([] ++ label false document.after) := by
      rw [labels, flatMap_nil]
      simp only [List.append_assoc, nil_append]
    have ends : width (document.opening ++ (label false (front.flatMap Entry.lines) ++
        label false document.gap)) = document.sectionEnd := by
      rw [width_append, width_append, width_opening, width_label, width_label, sectionEnd, shape]
      simp only [flatten_append, List.length_append, append_nil]
      omega
    have apart := apart_iff_owned place lined
    rw [ends] at apart
    rw [located]
    exact iff_of_true (apart.mpr nofun) trivial
  | cons entry more =>
    have isKey : entry.key = key := own entry rfl
    have isEntry : entry ∈ document.entries := by
      rw [entries]
      exact mem_append_right _ mem_cons_self
    obtain ⟨following, remaining, behind, silent, stops, lines, marks, free⟩ :=
      regular.following entries isKey
    have shape : document.inner = (document.lead ++ front.flatMap Entry.lines ++ entry.leading) ++
          (entry.head :: ((entry.body ++ following) ++ remaining)) := by
      rw [inner_split entries, flatMap_cons, List.append_assoc (Entry.lines entry), lines,
        Entry.lines]
      simp only [List.append_assoc, cons_append]
    have skipped := unread.append (unread_of_silent (regular.leading entry isEntry))
    have place : document.labelled key =
        (document.opening ++ (label false (front.flatMap Entry.lines) ++
          label true entry.leading)) ++ ((label true (entry.head :: entry.body) ++
            label false following) ++ behind) := by
      rw [labels, flatMap_cons, List.append_assoc (label _ entry.lines), marks,
        decide_eq_true isKey, Entry.lines]
      simp only [label, map_append, List.append_assoc]
    have apart := apart_iff_owned place lined
    have starts : width (document.opening ++ (label false (front.flatMap Entry.lines) ++
        label true entry.leading)) = document.bodyStart +
          (document.lead ++ front.flatMap Entry.lines ++ entry.leading).flatten.length := by
      rw [width_append, width_append, width_opening, width_label, width_label]
      simp only [flatten_append, List.length_append]
      omega
    have long : width (label true (entry.head :: entry.body) ++ label false following) =
        entry.head.length + (entry.body ++ following).flatten.length := by
      rw [width_append, width_label, width_label]
      simp only [flatten_append, flatten_cons, List.length_append]
      omega
    rw [starts, long, ← Nat.add_assoc] at apart
    rw [regular.entryLoop_eq isEntry isKey skipped silent stops shape, getD_some, apart, free]
    constructor
    · intro owned
      cases following with
      | nil => rfl
      | cons line following =>
        have own := owned (line, false) (mem_append_right _ mem_cons_self)
        cases own
    · intro none mark member
      rw [none, label, label, map_nil, append_nil, List.mem_map] at member
      obtain ⟨line, -, rfl⟩ := member
      rfl

omit entries others in
theorem Regular.takesOwn_iff_clear :
    document.TakesOwn key
    ((Operation.installYaml serverUrl).territory document.text key configPath) ↔ document.Clear key := by
  have entries : document.entries = document.entries.takeWhile (fun entry => entry.key ≠ key) ++
      document.entries.dropWhile (fun entry => entry.key ≠ key) :=
    List.takeWhile_append_dropWhile.symm
  have others : ∀ entry ∈ document.entries.takeWhile (fun entry => entry.key ≠ key),
      entry.key ≠ key := by
    intro entry member
    have differs := mem_takeWhile_imp member
    exact of_decide_eq_true differs
  by_cases clear : ∀ entry ∈ document.entries.takeWhile (fun entry => entry.key ≠ key),
      Unread key entry.body
  · rw [Clear, regular.takesOwn_iff lined unmarked entries others clear]
    · exact (and_iff_right clear).symm
    · intro entry first
      have differs := List.head?_dropWhile_not (fun entry : Entry => decide (entry.key ≠ key))
        document.entries
      rw [mem_def.mp first] at differs
      exact not_not.mp (of_decide_eq_false differs)
  · constructor
    · intro own
      unfold Unread at clear
      push Not at clear
      obtain ⟨entry, isEntry, line, isLine, named⟩ := clear
      refine absurd own (regular.not_takesOwn lined unmarked entries others ⟨line, ?_, named⟩)
      rw [mem_flatMap]
      exact ⟨entry, isEntry, mem_append_right _ (mem_cons_of_mem _ isLine)⟩
    · exact fun isClear => absurd isClear.1 clear

end Entries

end Document

/-- An installation keeps the lines outside `mcp_servers` and of its other entries exactly when the
ranges of the text that are the key's overlap none of them; they then stand in the new text in their
order. Where the document is regular and has no marker of the key, this is so exactly when no line
below an earlier entry reads as the key and no comment of what follows stands behind the key's
entry. -/
theorem yamlNeighbours_kept_iff (document : Document) (adapter serverUrl configPath : String)
    (update : ClientConfigUpdate) (lined : document.Lined)
    (ran : applyYamlMcpServerEntry (String.ofList document.text) adapter serverUrl configPath =
      .ok update) :
    ∃ (plan : Plan) (ranges : List (Nat × Nat)),
      planYaml document.text adapter.toList serverUrl.toList configPath = .ok plan ∧
      update = plan.update document.text ∧
      (Operation.installYaml serverUrl).Owns document.text adapter.toList ranges ∧
      (document.NeighboursKept adapter.toList plan ↔ document.TakesOwn adapter.toList ranges) ∧
      (document.NeighboursKept adapter.toList plan →
        ∃ pieces : List (List Char), pieces.flatten = update.contents.toList ∧
          (document.neighbours adapter.toList).Sublist pieces) ∧
      (∀ indentation, document.Regular indentation →
        find (beginMarker adapter.toList) document.text = none →
          (document.TakesOwn adapter.toList ranges ↔ document.Clear adapter.toList)) := by
  obtain ⟨plan, planned, same⟩ := @plan_of_run (.installYaml serverUrl) _ _ _ _ ran
  rw [String.toList_ofList] at planned same
  have iff := Document.neighboursKept_iff lined planned
  refine ⟨plan, _, planned, same, owns_territory planned, iff, ?_,
    fun indentation regular unmarked => regular.takesOwn_iff_clear lined unmarked⟩
  intro kept
  obtain ⟨first, last, added, ordered, territory, contents, -⟩ := planYaml_splice serverUrl planned
  have own := iff.mp kept
  rw [Document.TakesOwn, territory, forall_mem_singleton] at own
  obtain ⟨pieces, flat, order⟩ := Document.exists_pieces added ordered
    (document.labelled adapter.toList) 0 (by
      intro front line back shape
      rw [Nat.zero_add]
      exact own front line back shape)
  refine ⟨pieces, ?_, order⟩
  rw [same, Plan.update, String.toList_ofList, contents, flat, Document.map_labelled]
  rfl

/-- An entry `k` between two others. -/
def between : Document where
  before := ["model: m\n".toList]
  header := "mcp_servers:\n".toList
  lead := []
  entries := [⟨['a'], [], "  a:\n".toList, ["    url: x\n".toList]⟩,
    ⟨['k'], [], "  k:\n".toList, ["    url: y\n".toList]⟩,
    ⟨['b'], [], "  b:\n".toList, ["    k: z\n".toList]⟩]
  gap := ["# end\n".toList]
  after := ["theme: t\n".toList]

theorem regular_between : between.Regular 2 :=
  ⟨by decide, by decide, by decide, by decide, by decide,
    by decide, by decide, by decide, by decide, by decide⟩

/-- The appends of an installation of `k`. -/
def replacedBetween : Plan :=
  replacing between.text 38 54 (buildYamlMcpServersEntryBlock ['k'] ['u'] ['\n'])

/-- The lines of the others and outside are pieces of the new text. -/
theorem yamlNeighbours_kept_between : ∃ pieces : List (List Char),
      pieces.flatten = (replacedBetween.update between.text).contents.toList ∧
        (between.neighbours "k".toList).Sublist pieces := by
  have planned : (Operation.installYaml "u").plan between.text "k".toList "config" =
      .ok replacedBetween := by decide +kernel
  have unmarked : find (beginMarker "k".toList) between.text = none := by decide
  have clear : between.Clear "k".toList := by decide
  have ran : applyYamlMcpServerEntry (String.ofList between.text) "k" "u" "config" =
      .ok (replacedBetween.update between.text) := by
    have ran := @run_of_plan (.installYaml "u") (String.ofList between.text) "k" "config"
      replacedBetween
    rw [String.toList_ofList] at ran
    exact ran planned
  obtain ⟨plan, ranges, -, -, -, kept, order, regular⟩ := yamlNeighbours_kept_iff between "k" "u" "config"
    (replacedBetween.update between.text) (by decide) ran
  exact order (kept.mpr ((regular 2 regular_between unmarked).mpr clear))

/-- An installation of the key returns a text without a line of another entry or outside. -/
def Document.Loses (document : Document) (key : String) : Prop :=
  document.Lined ∧ document.Regular 2 ∧
    ∃ update, applyYamlMcpServerEntry (String.ofList document.text) key "u" "config" = .ok update ∧
      ∃ line ∈ document.neighbours key.toList, line ∉ splitInclusive '\n' update.contents.toList

theorem Document.loses_of_plan {document : Document} {key : String} {plan : Plan}
    (line : List Char) (lined : document.Lined) (regular : document.Regular 2)
    (planned : (Operation.installYaml "u").plan document.text key.toList "config" = .ok plan)
    (member : line ∈ document.neighbours key.toList)
    (lost : line ∉ splitInclusive '\n' (plan.contents document.text)) : document.Loses key := by
  have ran := @run_of_plan (.installYaml "u") (String.ofList document.text) key "config" plan
  rw [String.toList_ofList] at ran
  refine ⟨lined, regular, _, ran planned, line, member, ?_⟩
  rwa [Plan.update, String.toList_ofList]

/-- Below the entry `a` stands a key `k`. -/
def nestedKey : Document where
  before := []
  header := "mcp_servers:\n".toList
  lead := []
  entries := [⟨['a'], [], "  a:\n".toList, ["    env:\n".toList, "      k: 1\n".toList,
    "    url: x\n".toList]⟩]
  gap := []
  after := []

/-- Behind the entry `k` stands a comment on what follows the mapping. -/
def commentBehind : Document where
  before := []
  header := "mcp_servers:\n".toList
  lead := []
  entries := [⟨['k'], [], "  k:\n".toList, ["    url: x\n".toList]⟩]
  gap := ["# the model\n".toList]
  after := ["model: m\n".toList]

/-- The nested key and the rest of its entry are replaced, and so is the comment. -/
theorem yamlNeighbour_lost : nestedKey.Loses "k" ∧ commentBehind.Loses "k" := by
  constructor
  · refine @Document.loses_of_plan nestedKey "k" (replacing nestedKey.text 27 49
      (buildYamlMcpServersEntryBlock ['k'] ['u'] ['\n'])) "    url: x\n".toList (by decide)
      ?_ (by decide +kernel) (by decide +kernel) (by decide +kernel)
    exact ⟨by decide, by decide, by decide, by decide, by decide,
      by decide, by decide, by decide, by decide, by decide⟩
  · refine @Document.loses_of_plan commentBehind "k" (replacing commentBehind.text 13 41
      (buildYamlMcpServersEntryBlock ['k'] ['u'] ['\n'])) "# the model\n".toList (by decide)
      ?_ (by decide +kernel) (by decide +kernel) (by decide +kernel)
    exact ⟨by decide, by decide, by decide, by decide, by decide,
      by decide, by decide, by decide, by decide, by decide⟩

end Mcpace.ConfigEdit
