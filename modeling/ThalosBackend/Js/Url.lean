import Mathlib.Data.List.DropRight
import ThalosBackend.Library.DotSegments

/-!
# URLs

The part of `new URL(text)` that reads the path, what comes after it, and `url.toString()`, for a URL
of a special scheme whose origin stands as the parser leaves it. The path state takes `\` for `/`,
takes `%2e` for `.` where a segment is `.` or `..`, pops a segment for `..`, and ends the path with an
empty segment where its last one is a dot segment.

`parsePath_eq` says that this is the resolution of the segments the text is split into, and
`prefix_pathText_iff` what a text prefix of a URL says about its path.
-/

set_option autoImplicit false

namespace ThalosBackend.Js

open DotSegments (Kind)

/-! ## Percent-encoding -/

/-- The code units of a character in UTF-8. -/
def utf8Bytes (c : Char) : List ℕ :=
  let n := c.toNat
  if n < 0x80 then [n]
  else if n < 0x800 then [0xC0 + n / 0x40, 0x80 + n % 0x40]
  else if n < 0x10000 then [0xE0 + n / 0x1000, 0x80 + n / 0x40 % 0x40, 0x80 + n % 0x40]
  else [0xF0 + n / 0x40000, 0x80 + n / 0x1000 % 0x40, 0x80 + n / 0x40 % 0x40, 0x80 + n % 0x40]

/-- A hexadecimal digit. -/
def hexDigit (n : ℕ) : Char :=
  match n with
  | 0 => '0' | 1 => '1' | 2 => '2' | 3 => '3' | 4 => '4' | 5 => '5' | 6 => '6' | 7 => '7'
  | 8 => '8' | 9 => '9' | 10 => 'A' | 11 => 'B' | 12 => 'C' | 13 => 'D' | 14 => 'E' | _ => 'F'

/-- The escape of a code unit. -/
def escapeByte (b : ℕ) : List Char := ['%', hexDigit (b / 16), hexDigit (b % 16)]

/-- The escapes of a character. -/
def percentEncode (c : Char) : List Char := (utf8Bytes c).flatMap escapeByte

/-- A text with the characters of a set escaped. -/
def encodeWith (set : Char → Bool) (text : List Char) : List Char :=
  text.flatMap fun c => if set c then percentEncode c else [c]

/-- The path percent-encode set. -/
def pathSet (c : Char) : Bool :=
  c.toNat < 0x20 || 0x7E < c.toNat || c ∈ [' ', '"', '#', '<', '>', '?', '^', '`', '\x7b', '\x7d']

/-- The query percent-encode set of special schemes. -/
def querySet (c : Char) : Bool :=
  c.toNat < 0x20 || 0x7E < c.toNat || c ∈ [' ', '"', '#', '<', '>', '\x27']

/-- The fragment percent-encode set. -/
def fragmentSet (c : Char) : Bool :=
  c.toNat < 0x20 || 0x7E < c.toNat || c ∈ [' ', '"', '<', '>', '`']

/-- The characters `encodeURIComponent` leaves alone. -/
def isUnreserved (c : Char) : Bool :=
  c.isAlphanum || c ∈ ['-', '_', '.', '!', '~', '*', '\x27', '(', ')']

/-- `encodeURIComponent(text)`. -/
def encodeURIComponent (text : String) : List Char :=
  encodeWith (fun c => !isUnreserved c) text.toList

/-! ## The path state -/

/-- The characters between segments; `\` is one for special schemes. -/
def isSeparator (c : Char) : Bool := c = '/' || c = '\\'

/-- The characters that end a path. -/
def endsPath (c : Char) : Bool := c = '?' || c = '#'

/-- What a segment is to the path state: a double-dot segment, a single-dot segment or a name. -/
def segmentKind (segment : List Char) : Kind :=
  let lower := segment.map Char.toLower
  if lower ∈ [['.', '.'], ['.', '%', '2', 'e'], ['%', '2', 'e', '.'],
      ['%', '2', 'e', '%', '2', 'e']] then .up
  else if lower ∈ [['.'], ['%', '2', 'e']] then .here
  else .name

/-- The path with a segment that a separator ends. -/
def closeSegment (path : List (List Char)) (buffer : List Char) : List (List Char) :=
  DotSegments.push segmentKind path buffer

/-- The path with the last segment; after a dot segment comes an empty one. -/
def closeLast (path : List (List Char)) (buffer : List Char) : List (List Char) :=
  match segmentKind buffer with
  | .up => path.dropLast ++ [[]]
  | .here => path ++ [[]]
  | .name => path ++ [buffer]

/-- The path state: the path, and the text after it. -/
def pathState (path : List (List Char)) (buffer : List Char) :
    List Char → List (List Char) × List Char
  | [] => (closeLast path buffer, [])
  | c :: rest =>
    if isSeparator c then pathState (closeSegment path buffer) [] rest
    else if endsPath c then (closeLast path buffer, c :: rest)
    else pathState path (buffer ++ encodeWith pathSet [c]) rest

/-- A parsed URL. -/
structure Url where
  origin : List Char
  path : List (List Char)
  query : Option (List Char)
  fragment : Option (List Char)

/-- The fragment, after its `#`. -/
def parseFragment : List Char → Option (List Char)
  | '#' :: rest => some (encodeWith fragmentSet rest)
  | _ => none

/-- The query, after its `?`, and what follows. -/
def parseQuery : List Char → Option (List Char) × Option (List Char)
  | '?' :: rest =>
    (some (encodeWith querySet (rest.takeWhile (· ≠ '#'))), parseFragment (rest.dropWhile (· ≠ '#')))
  | rest => (none, parseFragment rest)

/-- Control characters and the blank, which the parser strips from the end. -/
def isC0ControlOrSpace (c : Char) : Bool := c.toNat ≤ 0x20

/-- Tabs and newlines, which the parser drops wherever they stand. -/
def isTabOrNewline (c : Char) : Bool := c = '\t' || c = '\n' || c = '\r'

/-- The text as the states read it. -/
def urlInput (text : List Char) : List Char :=
  (text.rdropWhile isC0ControlOrSpace).filter fun c => !isTabOrNewline c

/-- `new URL(origin + text)` for a text that begins with `/`. -/
def newUrl (origin text : List Char) : Url :=
  let (path, rest) := pathState [] [] (urlInput text).tail
  let (query, fragment) := parseQuery rest
  { origin, path, query, fragment }

/-- `/` before every segment. -/
def pathText (path : List (List Char)) : List Char := path.flatMap fun segment => '/' :: segment

/-- `url.search` and `url.hash`. -/
def Url.tail (url : Url) : List Char :=
  (url.query.elim [] ('?' :: ·)) ++ url.fragment.elim [] ('#' :: ·)

/-- `url.toString()`. -/
def Url.text (url : Url) : List Char := url.origin ++ pathText url.path ++ url.tail

/-! ## Segments -/

/-- The segments of a path text, as the path state closes them. -/
def splitPath (buffer : List Char) : List Char → List (List Char)
  | [] => [buffer]
  | c :: rest =>
    if isSeparator c then buffer :: splitPath [] rest
    else if endsPath c then [buffer]
    else splitPath (buffer ++ encodeWith pathSet [c]) rest

/-- The segments, with the empty one after a dot segment at the end. -/
def endWithName : List (List Char) → List (List Char)
  | [] => []
  | [last] => if segmentKind last = .name then [last] else [last, []]
  | segment :: next :: rest => segment :: endWithName (next :: rest)

theorem splitPath_ne_nil (buffer input : List Char) : splitPath buffer input ≠ [] := by
  induction input generalizing buffer with
  | nil => simp [splitPath]
  | cons c rest ih =>
      unfold splitPath
      split
      · simp
      · split
        · simp
        · exact ih _

theorem endWithName_cons (segment : List Char) {rest : List (List Char)} (h : rest ≠ []) :
    endWithName (segment :: rest) = segment :: endWithName rest := by
  obtain ⟨next, rest, rfl⟩ := List.exists_cons_of_ne_nil h
  rfl

theorem segmentKind_nil : segmentKind [] = .name := by decide

/-- The last segment is a name. -/
theorem endWithName_eq {segments : List (List Char)} (h : segments ≠ []) :
    ∃ init last, endWithName segments = init ++ [last] ∧ segmentKind last = .name := by
  induction segments with
  | nil => exact absurd rfl h
  | cons segment rest ih =>
      cases rest with
      | nil =>
          unfold endWithName
          split
          · rename_i hname
            exact ⟨[], segment, rfl, hname⟩
          · exact ⟨[segment], [], rfl, segmentKind_nil⟩
      | cons next rest =>
          obtain ⟨init, last, hinit, hlast⟩ := ih (by simp)
          refine ⟨segment :: init, last, ?_, hlast⟩
          rw [endWithName_cons segment (by simp), hinit]
          rfl

theorem closeLast_eq (path : List (List Char)) (buffer : List Char) :
    closeLast path buffer = DotSegments.resolve segmentKind path (endWithName [buffer]) := by
  cases hkind : segmentKind buffer with
  | up => simp [closeLast, endWithName, hkind, DotSegments.push, segmentKind_nil]
  | here => simp [closeLast, endWithName, hkind, DotSegments.push, segmentKind_nil]
  | name => simp [closeLast, endWithName, hkind, DotSegments.push]

/-- The path state resolves the segments. -/
theorem pathState_eq (path : List (List Char)) (buffer input : List Char) :
    (pathState path buffer input).1 =
      DotSegments.resolve segmentKind path (endWithName (splitPath buffer input)) := by
  induction input generalizing path buffer with
  | nil => exact closeLast_eq path buffer
  | cons c rest ih =>
      unfold pathState splitPath
      split
      · rw [ih, endWithName_cons _ (splitPath_ne_nil _ _)]
        rfl
      · split
        · exact closeLast_eq path buffer
        · exact ih path _

/-! ## Plain text -/

/-- The character stands for itself in a segment. -/
def isPlain (c : Char) : Bool := !isSeparator c && !pathSet c

/-- The segment is a name whose characters stand for themselves. -/
def PlainName (segment : List Char) : Prop :=
  segmentKind segment = .name ∧ ∀ c ∈ segment, isPlain c = true

theorem endsPath_of_plain {c : Char} (h : isPlain c = true) :
    isSeparator c = false ∧ endsPath c = false ∧ pathSet c = false := by
  simp only [isPlain, Bool.and_eq_true, Bool.not_eq_true'] at h
  refine ⟨h.1, ?_, h.2⟩
  by_contra hends
  simp only [endsPath, Bool.not_eq_false, Bool.or_eq_true, decide_eq_true_eq] at hends
  rcases hends with rfl | rfl
  · exact absurd h.2 (by decide)
  · exact absurd h.2 (by decide)

/-- Plain characters are read into the buffer. -/
theorem splitPath_plain {text : List Char} (h : ∀ c ∈ text, isPlain c = true)
    (buffer input : List Char) :
    splitPath buffer (text ++ input) = splitPath (buffer ++ text) input := by
  induction text generalizing buffer with
  | nil => simp
  | cons c rest ih =>
      obtain ⟨hseparator, hends, hset⟩ := endsPath_of_plain (h c List.mem_cons_self)
      rw [List.cons_append, splitPath, hseparator, hends]
      simp only [Bool.false_eq_true, if_false]
      rw [ih fun d hd => h d (List.mem_cons_of_mem c hd)]
      simp [encodeWith, hset]

/-- A plain segment that `/` ends. -/
theorem splitPath_segment {segment : List Char} (h : ∀ c ∈ segment, isPlain c = true)
    (input : List Char) : splitPath [] (segment ++ '/' :: input) = segment :: splitPath [] input := by
  rw [splitPath_plain h, splitPath]
  rfl

/-- Plain segments before the rest of a path. -/
theorem splitPath_pathText {path : List (List Char)} (h : ∀ s ∈ path, ∀ c ∈ s, isPlain c = true)
    (input : List Char) :
    splitPath [] ((pathText path ++ '/' :: input).tail) = path ++ splitPath [] input := by
  induction path with
  | nil => rfl
  | cons segment rest ih =>
      have hrest := ih fun s hs => h s (List.mem_cons_of_mem segment hs)
      have htext : (pathText (segment :: rest) ++ '/' :: input).tail =
          segment ++ '/' :: (pathText rest ++ '/' :: input).tail := by
        cases rest with
        | nil => simp [pathText]
        | cons next rest => simp [pathText]
      rw [htext, splitPath_segment (h segment List.mem_cons_self), hrest]
      rfl

/-- What is stripped from the end stands after the last character that stays. -/
theorem rdropWhile_append {p : Char → Bool} {text : List Char} {last : Char} (hlast : p last = false)
    (rest : List Char) :
    (text ++ last :: rest).rdropWhile p = text ++ last :: rest.rdropWhile p := by
  induction rest using List.reverseRecOn with
  | nil => simpa using List.rdropWhile_concat_neg p text last (by simp [hlast])
  | append_singleton rest c ih =>
      rw [← List.cons_append, ← List.append_assoc]
      by_cases hc : p c = true
      · rw [List.rdropWhile_concat_pos _ _ _ hc, List.rdropWhile_concat_pos _ _ _ hc, ih]
      · rw [List.rdropWhile_concat_neg _ _ _ hc, List.rdropWhile_concat_neg _ _ _ hc]
        simp

theorem not_tab_of_plain {c : Char} (h : isPlain c = true) : isTabOrNewline c = false := by
  by_contra htab
  simp only [isTabOrNewline, Bool.not_eq_false, Bool.or_eq_true, decide_eq_true_eq] at htab
  rcases htab with (rfl | rfl) | rfl
  · exact absurd h (by decide)
  · exact absurd h (by decide)
  · exact absurd h (by decide)

theorem filter_plain {text : List Char} (h : ∀ c ∈ text, isPlain c = true) :
    text.filter (fun c => !isTabOrNewline c) = text :=
  List.filter_eq_self.mpr fun c hc => by simp [not_tab_of_plain (h c hc)]

theorem filter_pathText {path : List (List Char)} (h : ∀ s ∈ path, ∀ c ∈ s, isPlain c = true) :
    (pathText path).filter (fun c => !isTabOrNewline c) = pathText path := by
  refine List.filter_eq_self.mpr fun c hc => ?_
  obtain ⟨s, hs, hc⟩ := List.mem_flatMap.mp hc
  rcases List.mem_cons.mp hc with rfl | hc
  · decide
  · simp [not_tab_of_plain (h s hs c hc)]

theorem not_control_of_plain {c : Char} (h : isPlain c = true) : isC0ControlOrSpace c = false := by
  obtain ⟨-, -, hset⟩ := endsPath_of_plain h
  by_contra hcontrol
  have hle : c.toNat ≤ 0x20 := by simpa [isC0ControlOrSpace] using hcontrol
  rcases Nat.lt_or_eq_of_le hle with hlt | heq
  · simp [pathSet, hlt] at hset
  · have hblank := Char.ofNat_toNat c
    rw [heq] at hblank
    rw [← hblank] at hset
    exact absurd hset (by decide)

/-- Plain text is read as it is. -/
theorem urlInput_plain {text : List Char} (h : ∀ c ∈ text, isPlain c = true) :
    urlInput text = text := by
  have hend : text.rdropWhile isC0ControlOrSpace = text := by
    refine List.rdropWhile_eq_self_iff.mpr fun hne => ?_
    simp [not_control_of_plain (h _ (List.getLast_mem hne))]
  rw [urlInput, hend, filter_plain h]

/-- **The parsed path.** Plain segments are the directory the rest is resolved from. -/
theorem newUrl_path {origin rest : List Char} {path : List (List Char)}
    (h : ∀ s ∈ path, PlainName s) :
    (newUrl origin (pathText path ++ '/' :: rest)).path =
      DotSegments.resolve segmentKind path (endWithName (splitPath [] (urlInput rest))) := by
  have hplain : ∀ s ∈ path, ∀ c ∈ s, isPlain c = true := fun s hs => (h s hs).2
  have hinput : urlInput (pathText path ++ '/' :: rest) = pathText path ++ '/' :: urlInput rest := by
    rw [urlInput, rdropWhile_append (by decide), List.filter_append, filter_pathText hplain]
    rfl
  have hend : ∀ segments, segments ≠ [] →
      endWithName (path ++ segments) = path ++ endWithName segments := by
    intro segments hne
    clear hinput hplain h
    induction path with
    | nil => rfl
    | cons s path ih =>
        rw [List.cons_append, endWithName_cons _ (by simp [hne]), ih]
        rfl
  have hpath : (newUrl origin (pathText path ++ '/' :: rest)).path =
      (pathState [] [] (urlInput (pathText path ++ '/' :: rest)).tail).1 := rfl
  rw [hpath, hinput, pathState_eq, splitPath_pathText hplain, hend _ (splitPath_ne_nil _ _),
    DotSegments.resolve_append, DotSegments.resolve_names fun s hs => (h s hs).1, List.nil_append]

/-! ## Text prefixes -/

/-- The characters that end a segment in a parsed URL. -/
def isStop (c : Char) : Bool := c = '/' || endsPath c

/-- No segment of the path has a character that ends one. -/
def Unstopped (path : List (List Char)) : Prop := ∀ s ∈ path, ∀ c ∈ s, isStop c = false

theorem not_stop_hexDigit (n : ℕ) : isStop (hexDigit n) = false := by
  unfold hexDigit
  split <;> decide

theorem not_stop_percentEncode {c d : Char} (hd : d ∈ percentEncode c) : isStop d = false := by
  obtain ⟨b, -, hd⟩ := List.mem_flatMap.mp hd
  simp only [escapeByte, List.mem_cons, List.not_mem_nil, or_false] at hd
  rcases hd with rfl | rfl | rfl
  · decide
  · exact not_stop_hexDigit _
  · exact not_stop_hexDigit _

theorem not_stop_encode {c : Char} (hseparator : isSeparator c = false) (hends : endsPath c = false) :
    ∀ d ∈ encodeWith pathSet [c], isStop d = false := by
  intro d hd
  simp only [encodeWith, List.flatMap_cons, List.flatMap_nil, List.append_nil] at hd
  split at hd
  · exact not_stop_percentEncode hd
  · obtain rfl := List.mem_singleton.mp hd
    simp only [isSeparator, Bool.or_eq_false_iff] at hseparator
    simp [isStop, hseparator.1, hends]

theorem not_stop_of_plain {c : Char} (h : isPlain c = true) : isStop c = false := by
  obtain ⟨hseparator, hends, -⟩ := endsPath_of_plain h
  simp only [isSeparator, Bool.or_eq_false_iff] at hseparator
  simp [isStop, hseparator.1, hends]

theorem unstopped_concat {path : List (List Char)} (h : Unstopped path) {segment : List Char}
    (hsegment : ∀ c ∈ segment, isStop c = false) : Unstopped (path ++ [segment]) := by
  intro s hs
  rcases List.mem_append.mp hs with hs | hs
  · exact h s hs
  · rw [List.mem_singleton.mp hs]
    exact hsegment

theorem unstopped_dropLast {path : List (List Char)} (h : Unstopped path) :
    Unstopped path.dropLast := fun s hs => h s ((List.dropLast_sublist path).subset hs)

theorem unstopped_closeSegment {path : List (List Char)} (h : Unstopped path) {buffer : List Char}
    (hbuffer : ∀ c ∈ buffer, isStop c = false) : Unstopped (closeSegment path buffer) := by
  unfold closeSegment DotSegments.push
  split
  · exact unstopped_dropLast h
  · exact h
  · exact unstopped_concat h hbuffer

theorem unstopped_closeLast {path : List (List Char)} (h : Unstopped path) {buffer : List Char}
    (hbuffer : ∀ c ∈ buffer, isStop c = false) : Unstopped (closeLast path buffer) := by
  unfold closeLast
  split
  · exact unstopped_concat (unstopped_dropLast h) (by simp)
  · exact unstopped_concat h (by simp)
  · exact unstopped_concat h hbuffer

theorem unstopped_pathState {path : List (List Char)} {buffer : List Char} (h : Unstopped path)
    (hbuffer : ∀ c ∈ buffer, isStop c = false) (input : List Char) :
    Unstopped (pathState path buffer input).1 := by
  induction input generalizing path buffer with
  | nil => exact unstopped_closeLast h hbuffer
  | cons c rest ih =>
      unfold pathState
      split
      · exact ih (unstopped_closeSegment h hbuffer) (by simp)
      · rename_i hseparator
        split
        · exact unstopped_closeLast h hbuffer
        · rename_i hends
          refine ih h fun d hd => ?_
          rcases List.mem_append.mp hd with hd | hd
          · exact hbuffer d hd
          · exact not_stop_encode (by simpa using hseparator) (by simpa using hends) d hd

theorem unstopped_newUrl (origin text : List Char) : Unstopped (newUrl origin text).path :=
  unstopped_pathState (by simp [Unstopped]) (by simp) _

/-- A segment ends where the text first stops. -/
theorem segment_prefix_iff {s t u v : List Char} (hs : ∀ c ∈ s, isStop c = false)
    (ht : ∀ c ∈ t, isStop c = false) (hu : ∃ c u', u = c :: u' ∧ isStop c = true)
    (hv : ∀ c ∈ v.head?, isStop c = true) : s ++ u <+: t ++ v ↔ s = t ∧ u <+: v := by
  obtain ⟨stop, u', rfl, hstop⟩ := hu
  -- letter by letter: neither segment holds a stop, and both are followed by one
  induction s generalizing t with
  | nil =>
      cases t with
      | nil => simp
      | cons d t =>
          have hd := ht d List.mem_cons_self
          constructor
          · intro h
            obtain ⟨rfl, -⟩ := List.cons_prefix_cons.mp h
            rw [hd] at hstop
            cases hstop
          · rintro ⟨h, -⟩
            cases h
  | cons c s ih =>
      have hc := hs c List.mem_cons_self
      cases t with
      | nil =>
          constructor
          · intro h
            obtain ⟨rest, rfl⟩ := h
            have hcv := hv c (by simp)
            rw [hc] at hcv
            cases hcv
          · rintro ⟨h, -⟩
            cases h
      | cons d t =>
          rw [List.cons_append, List.cons_append, List.cons_prefix_cons,
            ih (fun e he => hs e (List.mem_cons_of_mem c he))
              fun e he => ht e (List.mem_cons_of_mem d he)]
          simp [and_assoc]

theorem head_pathText_append {path : List (List Char)} {tail : List Char}
    (htail : ∀ c ∈ tail.head?, endsPath c = true) :
    ∀ c ∈ (pathText path ++ tail).head?, isStop c = true := by
  cases path with
  | nil =>
      intro c hc
      simp [isStop, htail c (by simpa [pathText] using hc)]
  | cons s path =>
      intro c hc
      obtain rfl : '/' = c := by simpa [pathText] using hc
      decide

/-- **Text prefixes are path prefixes.** -/
theorem prefix_pathText_iff {base path : List (List Char)} {tail : List Char} (hbase : Unstopped base)
    (hpath : Unstopped path) (htail : ∀ c ∈ tail.head?, endsPath c = true) :
    pathText base ++ ['/'] <+: pathText path ++ tail ↔ ∃ entry rest, path = base ++ entry :: rest := by
  induction base generalizing path with
  | nil =>
      cases path with
      | nil =>
          constructor
          · rintro ⟨rest, hrest⟩
            have hslash := htail '/' (by
              rw [show tail = '/' :: rest from hrest.symm]
              rfl)
            exact absurd hslash (by decide)
          · rintro ⟨entry, rest, h⟩
            cases h
      | cons s path => simp [pathText]
  | cons s base ih =>
      cases path with
      | nil =>
          constructor
          · rintro ⟨rest, hrest⟩
            have hslash := htail '/' (by
              rw [show tail = _ from hrest.symm]
              rfl)
            exact absurd hslash (by decide)
          · rintro ⟨entry, rest, h⟩
            cases h
      | cons t path =>
          have hleft : pathText (s :: base) ++ ['/'] = '/' :: (s ++ (pathText base ++ ['/'])) := by
            simp [pathText]
          have hright : pathText (t :: path) ++ tail = '/' :: (t ++ (pathText path ++ tail)) := by
            simp [pathText]
          -- the next segment begins with a slash, so the segments are compared whole
          have hstop : ∃ c u, pathText base ++ ['/'] = c :: u ∧ isStop c = true := by
            cases base with
            | nil => exact ⟨'/', [], rfl, by decide⟩
            | cons s' base => exact ⟨'/', _, rfl, by decide⟩
          rw [hleft, hright, List.cons_prefix_cons,
            segment_prefix_iff (hbase s List.mem_cons_self) (hpath t List.mem_cons_self) hstop
              (head_pathText_append htail),
            ih (fun s' hs' => hbase s' (List.mem_cons_of_mem s hs'))
              fun t' ht' => hpath t' (List.mem_cons_of_mem t ht')]
          simp only [true_and, List.cons_append, List.cons.injEq]
          constructor
          · rintro ⟨rfl, entry, rest, rfl⟩
            exact ⟨entry, rest, rfl, rfl⟩
          · rintro ⟨entry, rest, rfl, rfl⟩
            exact ⟨rfl, entry, rest, rfl⟩

theorem head_tail_endsPath (url : Url) : ∀ c ∈ url.tail.head?, endsPath c = true := by
  intro c hc
  unfold Url.tail at hc
  cases hquery : url.query with
  | some query =>
      obtain rfl : '?' = c := by simpa [hquery] using hc
      decide
  | none =>
      cases hfragment : url.fragment with
      | some fragment =>
          obtain rfl : '#' = c := by simpa [hquery, hfragment] using hc
          decide
      | none => simp [hquery, hfragment] at hc

/-! ## Encoded components -/

/-- What holds of every ASCII character. -/
theorem ascii_forall {P : Char → Prop} (h : ∀ n < 128, P (Char.ofNat n)) {c : Char}
    (hc : c.toNat < 128) : P c := by
  simpa using h c.toNat hc

theorem unreserved_lt {c : Char} (h : isUnreserved c = true) : c.toNat < 128 := by
  delta isUnreserved Char.isAlphanum Char.isAlpha Char.isUpper Char.isLower Char.isDigit at h
  simp only [Bool.or_eq_true, Bool.and_eq_true, decide_eq_true_eq, UInt32.le_iff_toNat_le,
    ge_iff_le] at h
  have hval : c.toNat = c.val.toNat := rfl
  have hZ : 'Z'.val.toNat = 90 := rfl
  have hz : 'z'.val.toNat = 122 := rfl
  have hnine : '9'.val.toNat = 57 := rfl
  rcases h with h | h
  · omega
  · revert h
    simp only [List.mem_cons, List.not_mem_nil, or_false]
    rintro (rfl | rfl | rfl | rfl | rfl | rfl | rfl | rfl | rfl) <;> decide

theorem plain_of_unreserved {c : Char} (h : isUnreserved c = true) : isPlain c = true :=
  ascii_forall (P := fun c => isUnreserved c = true → isPlain c = true) (by decide +kernel)
    (unreserved_lt h) h

theorem plain_hexDigit (n : ℕ) : isPlain (hexDigit n) = true := by
  unfold hexDigit
  split <;> decide

/-- What `encodeURIComponent` returns stands for itself in a segment. -/
theorem plain_encodeURIComponent (text : String) : ∀ c ∈ encodeURIComponent text, isPlain c = true := by
  intro c hc
  obtain ⟨d, -, hc⟩ := List.mem_flatMap.mp hc
  split at hc
  · obtain ⟨b, -, hc⟩ := List.mem_flatMap.mp hc
    simp only [escapeByte, List.mem_cons, List.not_mem_nil, or_false] at hc
    rcases hc with rfl | rfl | rfl
    · decide
    · exact plain_hexDigit _
    · exact plain_hexDigit _
  · obtain rfl := List.mem_singleton.mp hc
    rename_i hreserved
    exact plain_of_unreserved (by simpa using hreserved)

theorem hexDigit_eq_two {n : ℕ} (h : (hexDigit n).toLower = '2') : n = 2 := by
  unfold hexDigit at h
  split at h
  all_goals first | rfl | exact absurd h (by decide)

theorem hexDigit_eq_e {n : ℕ} (h : (hexDigit n).toLower = 'e') : n = 14 := by
  unfold hexDigit at h
  split at h
  all_goals first | rfl | exact absurd h (by decide)

/-- No escaped character reads `%2e`. -/
theorem percentEncode_eq {c : Char} (hc : c ≠ '.') : ∃ x y rest,
    percentEncode c = '%' :: x :: y :: rest ∧ ¬(x.toLower = '2' ∧ y.toLower = 'e') := by
  obtain ⟨b, bytes, hbytes, hb⟩ : ∃ b bytes, utf8Bytes c = b :: bytes ∧ b ≠ 46 := by
    unfold utf8Bytes
    dsimp only
    split
    · refine ⟨_, _, rfl, fun h => hc ?_⟩
      have hdot := Char.ofNat_toNat c
      rw [h] at hdot
      exact hdot.symm
    · split
      · exact ⟨_, _, rfl, by omega⟩
      · split
        · exact ⟨_, _, rfl, by omega⟩
        · exact ⟨_, _, rfl, by omega⟩
  refine ⟨hexDigit (b / 16), hexDigit (b % 16), bytes.flatMap escapeByte, ?_, ?_⟩
  · rw [percentEncode, hbytes]
    rfl
  · rintro ⟨hx, hy⟩
    have hhigh := hexDigit_eq_two hx
    have hlow := hexDigit_eq_e hy
    omega

/-- The encoding in lower case, as `segmentKind` reads it. -/
def encodedLower (text : List Char) : List Char :=
  (encodeWith (fun c => !isUnreserved c) text).map Char.toLower

theorem encodedLower_cons_of_unreserved {c : Char} (h : isUnreserved c = true) (text : List Char) :
    encodedLower (c :: text) = c.toLower :: encodedLower text := by
  simp [encodedLower, encodeWith, h]

theorem encodedLower_cons_of_reserved {c : Char} (h : isUnreserved c = false) (text : List Char) :
    ∃ x y rest, encodedLower (c :: text) = '%' :: x :: y :: rest ∧ ¬(x = '2' ∧ y = 'e') := by
  obtain ⟨x, y, rest, hencoded, hdot⟩ := percentEncode_eq (c := c) (by
    rintro rfl
    exact absurd h (by decide))
  refine ⟨x.toLower, y.toLower, rest.map Char.toLower ++ encodedLower text, ?_, hdot⟩
  simp [encodedLower, encodeWith, h, hencoded, show '%'.toLower = '%' from rfl]

/-- No encoding begins with `%2e`. -/
theorem encodedLower_ne_escape (text rest : List Char) :
    encodedLower text ≠ '%' :: '2' :: 'e' :: rest := by
  intro h
  cases text with
  | nil => cases h
  | cons c text =>
      by_cases hc : isUnreserved c = true
      · rw [encodedLower_cons_of_unreserved hc] at h
        have hlower := (List.cons.inj h).1
        have hno : isUnreserved c = true → c.toLower ≠ '%' :=
          ascii_forall (P := fun c => isUnreserved c = true → c.toLower ≠ '%') (by decide +kernel)
            (unreserved_lt hc)
        exact hno hc hlower
      · obtain ⟨x, y, rest', hencoded, hdot⟩ :=
          encodedLower_cons_of_reserved (by simpa using hc) text
        rw [hencoded] at h
        simp only [List.cons.injEq, true_and] at h
        exact hdot ⟨h.1, h.2.1⟩

/-- An encoding that begins with a dot is that of a text that does. -/
theorem encodedLower_eq_dot {text rest : List Char} (h : encodedLower text = '.' :: rest) :
    ∃ text', text = '.' :: text' ∧ encodedLower text' = rest := by
  cases text with
  | nil => cases h
  | cons c text =>
      by_cases hc : isUnreserved c = true
      · rw [encodedLower_cons_of_unreserved hc] at h
        obtain ⟨hlower, hrest⟩ := List.cons.inj h
        have hdot : isUnreserved c = true → c.toLower = '.' → c = '.' :=
          ascii_forall (P := fun c => isUnreserved c = true → c.toLower = '.' → c = '.')
            (by decide +kernel) (unreserved_lt hc)
        exact ⟨text, by rw [hdot hc hlower], hrest⟩
      · obtain ⟨x, y, rest', hencoded, -⟩ := encodedLower_cons_of_reserved (by simpa using hc) text
        rw [hencoded] at h
        exact absurd (List.cons.inj h).1 (by decide)

theorem encodedLower_eq_nil {text : List Char} (h : encodedLower text = []) : text = [] := by
  cases text with
  | nil => rfl
  | cons c text =>
      by_cases hc : isUnreserved c = true
      · rw [encodedLower_cons_of_unreserved hc] at h
        cases h
      · obtain ⟨x, y, rest', hencoded, -⟩ := encodedLower_cons_of_reserved (by simpa using hc) text
        rw [hencoded] at h
        cases h

/-- **Double-dot components.** `..` is the only text whose encoding is a double-dot segment. -/
theorem segmentKind_encodeURIComponent_eq_up {text : String} :
    segmentKind (encodeURIComponent text) = .up ↔ text = ".." := by
  constructor
  · intro hup
    have hmem : (encodeURIComponent text).map Char.toLower ∈ [['.', '.'], ['.', '%', '2', 'e'],
        ['%', '2', 'e', '.'], ['%', '2', 'e', '%', '2', 'e']] := by
      by_contra hno
      unfold segmentKind at hup
      dsimp only at hup
      rw [if_neg hno] at hup
      split at hup
      · cases hup
      · cases hup
    have hlower : (encodeURIComponent text).map Char.toLower = encodedLower text.toList := rfl
    rw [hlower] at hmem
    simp only [List.mem_cons, List.not_mem_nil, or_false] at hmem
    rcases hmem with h | h | h | h
    · obtain ⟨text₁, htext, h₁⟩ := encodedLower_eq_dot h
      obtain ⟨text₂, rfl, h₂⟩ := encodedLower_eq_dot h₁
      rw [encodedLower_eq_nil h₂] at htext
      exact String.toList_inj.mp htext
    · obtain ⟨text₁, -, h₁⟩ := encodedLower_eq_dot h
      exact absurd h₁ (encodedLower_ne_escape _ _)
    · exact absurd h (encodedLower_ne_escape _ _)
    · exact absurd h (encodedLower_ne_escape _ _)
  · rintro rfl
    decide

end ThalosBackend.Js
