import Buzz.Library.Replace

/-!
# `str_replace`

The tool of `crates/buzz-dev-mcp/src/str_replace.rs`, with `read_text_file` of `paths.rs`: a file is
read, an occurrence of a text in it (or each of them) is replaced, and the file is put in place by
a rename. The answers of the operating system are parameters, as is how a path is resolved.

Not modelled are the diff, the hint on the nearest line, the permissions, and how Rust quotes a
text; the first two and the last are parameters.

## Main definitions

* `Disk`, `Io`: the files, and what the calls of a run answer.
* `readTextFile`, `atomicWrite`, `countOccurrencesCapped`, `run`.
* `Edited`: what an edit does to a file.

## Main results

* `run_error`: a run that fails leaves the files as they are.
* `edits_one_place_iff`: which edits are of the one place where the text occurs.
-/

namespace Buzz.DevMcp

open Buzz.Library

/-! ### Files -/

/-- What a path leads to. -/
inductive Node
  | file (bytes : List UInt8)
  | other

/-- The files, by their canonical paths. -/
abbrev Disk := String → Option Node

inductive ErrorData
  | invalidParams (message : String)
  | internalError (message : String)

/-- What the calls of one run answer where they fail, the name of the temporary file, and how far
it is written. -/
structure Io where
  resolvePath : Option String → String → Except String String
  metadata : Option String
  openFile : Option String
  readToEnd : Option String
  newIn : Except String String
  writeAll : Option (ℕ × String)
  flush : Option String
  persist : Option String

/-- What is used of other crates in the texts of results. -/
structure Texts where
  quoted : List Char → String
  utf8Error : List UInt8 → String
  nearestLineHint : List Char → List Char → Option String
  unifiedDiff : List Char → List Char → String → String

def maxFileBytes : ℕ := 10 * 1024 * 1024

/-- `read_text_file`. -/
def readTextFile (texts : Texts) (io : Io) (disk : Disk) (path : String) (workdir : Option String) :
    Except ErrorData (String × List Char) :=
  match io.resolvePath workdir path with
  | .error e => .error (.invalidParams e)
  | .ok target =>
    match io.metadata, disk target with
    | some e, _ => .error (.internalError s!"cannot stat {target}: {e}")
    | none, none => .error (.internalError s!"cannot stat {target}: not found")
    | none, some .other => .error (.invalidParams s!"not a regular file: {target}")
    | none, some (.file bytes) =>
      if maxFileBytes < bytes.length then
        .error (.invalidParams (s!"file too large: {target} is {bytes.length} bytes " ++
          s!"(limit {maxFileBytes} bytes)"))
      else
        match io.openFile, io.readToEnd with
        | some e, _ => .error (.internalError s!"cannot open {target}: {e}")
        | none, some e => .error (.internalError s!"cannot read {target}: {e}")
        | none, none =>
          if maxFileBytes < (bytes.take (maxFileBytes + 1)).length then
            .error (.invalidParams s!"file grew past {maxFileBytes} bytes during read")
          else
            match utf8Decode bytes with
            | none =>
              .error (.internalError s!"not valid UTF-8: {target}: {texts.utf8Error bytes}")
            | some content => .ok (target, content)

/-- `atomic_write`: a temporary file that is dropped on an error, or renamed. -/
def atomicWrite (io : Io) (disk : Disk) (target : String) (content : List Char) :
    Except String Unit × Disk :=
  match io.newIn with
  | .error e => (.error e, disk)
  | .ok tmp =>
    let dropped (disk' : Disk) : Disk := Function.update disk' tmp (disk tmp)
    match io.writeAll with
    | some (n, e) =>
      (.error e, dropped (Function.update disk tmp (some (.file ((utf8 content).take n)))))
    | none =>
      let written := Function.update disk tmp (some (.file (utf8 content)))
      match io.flush, io.persist with
      | some e, _ => (.error e, dropped written)
      | none, some e => (.error e, dropped written)
      | none, none =>
        (.ok (), Function.update (dropped written) target (some (.file (utf8 content))))

/-! ### The tool -/

structure StrReplaceParams where
  path : String
  oldStr : List Char
  newStr : List Char
  replaceAll : Bool
  workdir : Option String

def maxInputBytes : ℕ := 1024 * 1024

/-- `count_occurrences_capped`: the loop ends at the second. -/
def countOccurrencesCapped (text pattern : List Char) : ℕ :=
  if pattern = [] then 0
  else
    match splitFirst pattern text with
    | none => 0
    | some (_, rest) => if (splitFirst pattern rest).isSome then 2 else 1

/-- `truncate`. -/
def truncate (s : List Char) (maxChars : ℕ) : List Char :=
  if s.length ≤ maxChars then s else s.take maxChars ++ ['…']

/-- The values of an `i64`, at which arithmetic saturates. -/
def saturate (x : ℤ) : ℤ := max (-2 ^ 63) (min x (2 ^ 63 - 1))

/-- The size of a result, before it is built. -/
def projectedSize (content oldStr newStr : List Char) (count : ℕ) : ℤ :=
  let sizeDelta : ℤ := (utf8 newStr).length - (utf8 oldStr).length
  saturate ((utf8 content).length + saturate (sizeDelta * count))

/-- What a successful run says. -/
def report (texts : Texts) (count : ℕ) (target : String) (content newContent : List Char) :
    String :=
  let label := if count = 1 then "1 occurrence" else s!"{count} occurrence(s)"
  s!"Replaced {label} in {target}.\n\n{texts.unifiedDiff content newContent target}"

namespace StrReplaceParams

variable (p : StrReplaceParams) (hold : p.oldStr ≠ []) (content : List Char)

/-- The occurrences that are counted. -/
def count : ℕ :=
  if p.replaceAll then matchCount p.oldStr hold content
  else countOccurrencesCapped content p.oldStr

/-- The content that is written. -/
def newContent : List Char :=
  if p.replaceAll then Library.replaceAll p.oldStr hold p.newStr content
  else replaceFirst p.oldStr p.newStr content

end StrReplaceParams

/-- The edit of a file that has been read. -/
def edit (texts : Texts) (io : Io) (disk : Disk) (p : StrReplaceParams) (hold : p.oldStr ≠ [])
    (target : String) (content : List Char) : Except ErrorData String × Disk :=
  let count := p.count hold content
  if count = 0 then
    let hint := ((texts.nearestLineHint content p.oldStr).map ("\n" ++ ·)).getD ""
    (.error (.invalidParams (s!"old_str not found in {target}.\nold_str (truncated): " ++
      texts.quoted (truncate p.oldStr 80) ++ hint)), disk)
  else if !p.replaceAll && 1 < count then
    (.error (.invalidParams (s!"old_str matched multiple locations in {target}; provide more " ++
      "surrounding context to make the match unique.")), disk)
  else
    let projected := projectedSize content p.oldStr p.newStr count
    if projected < 0 ∨ maxFileBytes < projected.toNat then
      (.error (.invalidParams (s!"result would exceed {maxFileBytes} byte limit " ++
        s!"({projected} bytes projected)")), disk)
    else
      let newContent := p.newContent hold content
      match atomicWrite io disk target newContent with
      | (.error e, disk') => (.error (.internalError s!"failed to write {target}: {e}"), disk')
      | (.ok _, disk') => (.ok (report texts count target content newContent), disk')

def run (texts : Texts) (io : Io) (disk : Disk) (p : StrReplaceParams) :
    Except ErrorData String × Disk :=
  if hold : p.oldStr = [] then (.error (.invalidParams "old_str must not be empty"), disk)
  else if maxInputBytes < (utf8 p.oldStr).length ∨ maxInputBytes < (utf8 p.newStr).length then
    (.error (.invalidParams s!"old_str/new_str exceeds {maxInputBytes} byte limit"), disk)
  else
    match readTextFile texts io disk p.path p.workdir with
    | .error e => (.error e, disk)
    | .ok (target, content) => edit texts io disk p hold target content

/-! ### Reading and writing -/

variable {texts : Texts} {io : Io} {disk disk' : Disk} {p : StrReplaceParams} {target : String}
  {content newContent : List Char} {message : String}

/-- A file that is read has the bytes of its text, within the limit. -/
theorem readTextFile_ok {path : String} {workdir : Option String}
    (h : readTextFile texts io disk path workdir = .ok (target, content)) :
    io.resolvePath workdir path = .ok target ∧ disk target = some (.file (utf8 content)) ∧
      (utf8 content).length ≤ maxFileBytes := by
  unfold readTextFile at h
  split at h
  · cases h
  · next hpath =>
    split at h
    · cases h
    · cases h
    · cases h
    · next bytes _ hnode =>
      by_cases hsize : maxFileBytes < bytes.length
      · rw [if_pos hsize] at h
        cases h
      · rw [if_neg hsize] at h
        split at h
        · cases h
        · cases h
        · split at h
          · cases h
          · split at h
            · cases h
            · next hdecode =>
              cases h
              obtain rfl := utf8Decode_eq_some_iff.mp hdecode
              exact ⟨hpath, hnode, Nat.le_of_not_lt hsize⟩

/-- A write that fails leaves nothing behind. -/
theorem atomicWrite_error {e : String}
    (h : atomicWrite io disk target newContent = (.error e, disk')) : disk' = disk := by
  unfold atomicWrite at h
  split at h
  · cases h
    rfl
  · split at h
    · cases h
      simp
    · split at h
      · cases h
        simp
      · cases h
        simp
      · cases h

theorem atomicWrite_ok
    (h : atomicWrite io disk target newContent = (.ok (), disk')) :
    disk' = Function.update disk target (some (.file (utf8 newContent))) := by
  unfold atomicWrite at h
  split at h
  · cases h
  · split at h
    · cases h
    · split at h
      · cases h
      · cases h
      · cases h
        simp

/-! ### Sizes -/

theorem saturate_eq {x : ℤ} (hlow : -2 ^ 50 ≤ x) (hhigh : x ≤ 2 ^ 50) : saturate x = x := by
  unfold saturate
  omega

/-- The projected size of a result is its size, where the sizes are within the limits. -/
theorem projectedSize_eq {count : ℕ} (hcontent : (utf8 content).length ≤ maxFileBytes)
    (hold : (utf8 p.oldStr).length ≤ maxInputBytes) (hnew : (utf8 p.newStr).length ≤ maxInputBytes)
    (hcount : count ≤ maxFileBytes)
    (hsize : (utf8 newContent).length + count * (utf8 p.oldStr).length =
      (utf8 content).length + count * (utf8 p.newStr).length) :
    projectedSize content p.oldStr p.newStr count = (utf8 newContent).length := by
  have hbound {n : ℕ} (hn : n ≤ maxInputBytes) : count * n ≤ 2 ^ 44 :=
    (Nat.mul_le_mul hcount hn).trans (by decide)
  have hmul : ((utf8 p.newStr).length - (utf8 p.oldStr).length : ℤ) * count =
      (count * (utf8 p.newStr).length : ℕ) - (count * (utf8 p.oldStr).length : ℕ) := by
    push_cast
    ring
  have hfile : maxFileBytes ≤ 2 ^ 44 := by decide
  have hold' := hbound hold
  have hnew' := hbound hnew
  have hchange : saturate ((count * (utf8 p.newStr).length : ℕ) -
      (count * (utf8 p.oldStr).length : ℕ)) =
      (count * (utf8 p.newStr).length : ℕ) - (count * (utf8 p.oldStr).length : ℕ) :=
    saturate_eq (by omega) (by omega)
  rw [projectedSize, hmul, hchange, saturate_eq (by omega) (by omega)]
  omega

/-! ### Counting -/

/-- One occurrence from left to right. -/
theorem countOccurrencesCapped_eq_one (h : countOccurrencesCapped content p.oldStr = 1) :
    ∃ before after, First p.oldStr content before after ∧ ¬ p.oldStr <:+: after := by
  unfold countOccurrencesCapped at h
  split_ifs at h with hold
  rcases splitFirst_spec hold content with ⟨before, after, hsplit, hfirst⟩ | ⟨hsplit, -⟩
  · rw [hsplit] at h
    refine ⟨before, after, hfirst, (splitFirst_eq_none_iff hold).mp ?_⟩
    by_contra hsome
    have hsecond : (splitFirst p.oldStr after).isSome := Option.isSome_iff_ne_none.mpr hsome
    simp [hsecond] at h
  · rw [hsplit] at h
    simp at h

/-! ### What an edit is -/

/-- The edit of a text: at the one position where the old text occurs, or at each occurrence from
left to right. -/
structure Edited (p : StrReplaceParams) (content newContent : List Char) (count : ℕ) : Prop where
  one : p.replaceAll = false → (∃! i, OccursAt p.oldStr content i) ∧
    ∃ before after, content = before ++ p.oldStr ++ after ∧
      newContent = before ++ p.newStr ++ after
  all : p.replaceAll = true → ∃ parts, Cut p.oldStr content parts ∧
    newContent = p.newStr.intercalate parts ∧ parts.length = count + 1
  size : projectedSize content p.oldStr p.newStr count = (utf8 newContent).length
  limit : (utf8 newContent).length ≤ maxFileBytes

/-- The file becomes its edit, and the number of replacements is reported. -/
def Performed (texts : Texts) (p : StrReplaceParams) (target : String) (content : List Char)
    (disk : Disk) (message : String) (disk' : Disk) : Prop :=
  ∃ newContent count, Edited p content newContent count ∧
    message = report texts count target content newContent ∧
    disk' = Function.update disk target (some (.file (utf8 newContent)))

/-- The steps of a run that succeeds. -/
theorem run_ok (h : run texts io disk p = (.ok message, disk')) :
    ∃ (hold : p.oldStr ≠ []) (target : String) (content : List Char),
      (utf8 p.oldStr).length ≤ maxInputBytes ∧ (utf8 p.newStr).length ≤ maxInputBytes ∧
      readTextFile texts io disk p.path p.workdir = .ok (target, content) ∧
      p.count hold content ≠ 0 ∧ (p.replaceAll = false → p.count hold content ≤ 1) ∧
      (projectedSize content p.oldStr p.newStr (p.count hold content)).toNat ≤ maxFileBytes ∧
      message = report texts (p.count hold content) target content (p.newContent hold content) ∧
      disk' = Function.update disk target (some (.file (utf8 (p.newContent hold content)))) := by
  unfold run at h
  split_ifs at h with hold hsizes
  · cases h
  · cases h
  · rw [not_or, Nat.not_lt, Nat.not_lt] at hsizes
    split at h
    · cases h
    · next target content hread =>
      unfold edit at h
      dsimp only at h
      split_ifs at h with hzero hmany hprojected
      · cases h
      · cases h
      · cases h
      · rw [not_or, Int.not_lt, Nat.not_lt] at hprojected
        split at h
        · cases h
        · next hwrite =>
          cases h
          refine ⟨hold, target, content, hsizes.1, hsizes.2, hread, hzero, fun hone => ?_,
            hprojected.2, rfl, atomicWrite_ok hwrite⟩
          simpa [hone] using hmany

/-- A run that fails leaves the files as they are. -/
theorem run_error {e : ErrorData} (h : run texts io disk p = (.error e, disk')) :
    disk' = disk := by
  unfold run at h
  split_ifs at h
  · cases h
    rfl
  · cases h
    rfl
  · split at h
    · cases h
      rfl
    · unfold edit at h
      dsimp only at h
      split_ifs at h
      · cases h
        rfl
      · cases h
        rfl
      · cases h
        rfl
      · split at h
        · next hwrite =>
          cases h
          exact atomicWrite_error hwrite
        · cases h

/-- The result of a run that succeeds has the size that was projected. -/
theorem projectedSize_newContent (hold : p.oldStr ≠ [])
    (hcontent : (utf8 content).length ≤ maxFileBytes)
    (holdSize : (utf8 p.oldStr).length ≤ maxInputBytes)
    (hnewSize : (utf8 p.newStr).length ≤ maxInputBytes) (hzero : p.count hold content ≠ 0)
    (hone : p.replaceAll = false → p.count hold content ≤ 1) :
    projectedSize content p.oldStr p.newStr (p.count hold content) =
      (utf8 (p.newContent hold content)).length := by
  have hpos : 0 < (utf8 p.oldStr).length := List.length_pos_of_ne_nil (utf8_ne_nil hold)
  cases hall : p.replaceAll with
  | true =>
    have hcount : p.count hold content = matchCount p.oldStr hold content := if_pos hall
    have hnew : p.newContent hold content = replaceAll p.oldStr hold p.newStr content :=
      if_pos hall
    have hfit : matchCount p.oldStr hold content ≤ maxFileBytes := by
      have hle := matchCount_mul_le hold content
      have hself := Nat.le_mul_of_pos_right (matchCount p.oldStr hold content) hpos
      omega
    rw [hcount, hnew]
    exact projectedSize_eq hcontent holdSize hnewSize hfit (length_replaceAll hold _ _)
  | false =>
    have hcount : p.count hold content = countOccurrencesCapped content p.oldStr :=
      if_neg (by simp [hall])
    have hnew : p.newContent hold content = replaceFirst p.oldStr p.newStr content :=
      if_neg (by simp [hall])
    have hcount1 : p.count hold content = 1 := by
      have hle := hone hall
      omega
    obtain ⟨before, after, hfirst, -⟩ := countOccurrencesCapped_eq_one (hcount.symm.trans hcount1)
    have hlength := length_replaceFirst hfirst hold p.newStr
    rw [hcount1, hnew]
    exact projectedSize_eq hcontent holdSize hnewSize (by decide) (by omega)

/-- **An edit is of the one place where the text occurs** where the occurrences do not overlap, and
a run that fails leaves the files as they are. -/
theorem edits_one_place_iff (texts : Texts) (io : Io) (disk : Disk) (p : StrReplaceParams) :
    (∀ e disk', run texts io disk p = (.error e, disk') → disk' = disk) ∧
    ∀ message disk', run texts io disk p = (.ok message, disk') →
      ∃ target content, io.resolvePath p.workdir p.path = .ok target ∧
        disk target = some (.file (utf8 content)) ∧
        (Performed texts p target content disk message disk' ↔
          p.replaceAll = true ∨ Separated p.oldStr content) := by
  refine ⟨fun e disk' h => run_error h, fun message disk' h => ?_⟩
  obtain ⟨hold, target, content, holdSize, hnewSize, hread, hzero, hone, hlimit, hmessage, hdisk⟩ :=
    run_ok h
  obtain ⟨hpath, hnode, hcontent⟩ := readTextFile_ok hread
  refine ⟨target, content, hpath, hnode, fun hperformed => ?_, fun hcond => ?_⟩
  · obtain ⟨newContent, count, hedited, -, -⟩ := hperformed
    cases hall : p.replaceAll with
    | true => exact .inl rfl
    | false => exact .inr (separated_of_unique (hedited.one hall).1)
  · have hsize := projectedSize_newContent hold hcontent holdSize hnewSize hzero hone
    refine ⟨p.newContent hold content, p.count hold content, ⟨fun hall => ?_, fun hall => ?_, hsize,
      by omega⟩, hmessage, hdisk⟩
    · have hseparated : Separated p.oldStr content := hcond.resolve_left (by simp [hall])
      have hcount : countOccurrencesCapped content p.oldStr = 1 := by
        have heq : p.count hold content = countOccurrencesCapped content p.oldStr :=
          if_neg (by simp [hall])
        have hle := hone hall
        omega
      obtain ⟨before, after, hfirst, hafter⟩ := countOccurrencesCapped_eq_one hcount
      have hnew : p.newContent hold content = replaceFirst p.oldStr p.newStr content :=
        if_neg (by simp [hall])
      refine ⟨⟨before.length, hfirst.occursAt, fun i hi => ?_⟩, before, after, hfirst.1, ?_⟩
      · exact hfirst.eq_of_occursAt hafter hseparated hi
      · rw [hnew, replaceFirst_eq hfirst hold]
    · have hcount : p.count hold content = matchCount p.oldStr hold content := if_pos hall
      have hcut := cut_splitAll hold content
      have hpos : 0 < (splitAll p.oldStr hold content).length :=
        List.length_pos_of_ne_nil hcut.ne_nil
      refine ⟨_, hcut, if_pos hall, ?_⟩
      rw [hcount, matchCount]
      omega

/-! ### Runs on one file -/

/-- Every call answers. -/
def Io.quiet : Io := ⟨fun _ path => .ok path, none, none, none, .ok "/tmp/.tmpA", none, none, none⟩

/-- One file. -/
def Disk.single (path : String) (content : List Char) : Disk := fun path' =>
  if path' = path then some (.file (utf8 content)) else none

/-- The texts of results without quotes, hints and diffs. -/
def Texts.plain : Texts := ⟨String.ofList, fun _ => "", fun _ _ => none, fun _ _ _ => ""⟩

theorem readTextFile_quiet {path : String} {workdir : Option String}
    (h : (utf8 content).length ≤ maxFileBytes) :
    readTextFile texts .quiet (Disk.single path content) path workdir = .ok (path, content) := by
  have htake : ¬ maxFileBytes < ((utf8 content).take (maxFileBytes + 1)).length := by
    rw [List.length_take]
    omega
  have hdecode : utf8Decode (utf8 content) = some content := utf8Decode_eq_some_iff.mpr rfl
  simp only [readTextFile, Io.quiet, Disk.single, if_true, if_neg (Nat.not_lt.mpr h), htake,
    if_false, hdecode]

/-- An edit of one occurrence within the limits succeeds. -/
theorem run_quiet (hold : p.oldStr ≠ []) (holdSize : (utf8 p.oldStr).length ≤ maxInputBytes)
    (hnewSize : (utf8 p.newStr).length ≤ maxInputBytes)
    (hcontent : (utf8 content).length ≤ maxFileBytes) (hcount : p.count hold content = 1)
    (hlimit : (utf8 (p.newContent hold content)).length ≤ maxFileBytes) :
    run texts .quiet (Disk.single p.path content) p =
      (.ok (report texts 1 p.path content (p.newContent hold content)),
        Function.update (Disk.single p.path content) p.path
          (some (.file (utf8 (p.newContent hold content))))) := by
  have hsize := projectedSize_newContent hold hcontent holdSize hnewSize
    (by rw [hcount]; decide) (fun _ => hcount.le)
  rw [hcount] at hsize
  have hwrite : atomicWrite .quiet (Disk.single p.path content) p.path (p.newContent hold content) =
      (.ok (), Function.update (Disk.single p.path content) p.path
        (some (.file (utf8 (p.newContent hold content))))) := by
    simp [atomicWrite, Io.quiet]
  rw [run, dif_neg hold, if_neg (by omega), readTextFile_quiet hcontent]
  simp only [edit, hcount, hsize, hwrite, one_ne_zero, if_false, lt_self_iff_false, decide_false,
    Bool.and_false, Bool.false_eq_true, Int.toNat_natCast]
  rw [if_neg (by omega)]

/-- The second occurrence overlaps the first, and is not counted: the text occurs twice, and the
first one is replaced. -/
theorem overlapping_edit :
    let p : StrReplaceParams := ⟨"f", "aa".toList, "b".toList, false, none⟩
    ∃ message disk', run .plain .quiet (Disk.single "f" "aaa".toList) p = (.ok message, disk') ∧
      disk' "f" = some (.file (utf8 "ba".toList)) ∧
      OccursAt p.oldStr "aaa".toList 0 ∧ OccursAt p.oldStr "aaa".toList 1 ∧
      ¬ ∃! i, OccursAt p.oldStr "aaa".toList i := by
  intro p
  have hrun := @run_quiet .plain p "aaa".toList (by decide) (by decide)
    (by decide) (by decide) (by decide) (by decide)
  have hzero : OccursAt p.oldStr "aaa".toList 0 := ⟨[], ['a'], rfl, rfl⟩
  have hone : OccursAt p.oldStr "aaa".toList 1 := ⟨['a'], [], rfl, rfl⟩
  refine ⟨_, _, hrun, Function.update_self _ _ _, hzero, hone, fun hunique => ?_⟩
  exact absurd (hunique.unique hzero hone) (by decide)

/-- The text occurs once. -/
theorem edits_one_place_sample :
    let p : StrReplaceParams := ⟨"f", "beta".toList, "BETA".toList, false, none⟩
    ∃ message disk' target content,
      run .plain .quiet (Disk.single "f" "alpha beta".toList) p = (.ok message, disk') ∧
      (Performed .plain p target content (Disk.single "f" "alpha beta".toList) message disk' ↔
        p.replaceAll = true ∨ Separated p.oldStr content) := by
  intro p
  have hrun := @run_quiet .plain p "alpha beta".toList (by decide) (by decide)
    (by decide) (by decide) (by decide) (by decide)
  obtain ⟨target, content, -, -, hiff⟩ := (edits_one_place_iff _ _ _ _).2 _ _ hrun
  exact ⟨_, _, target, content, hrun, hiff⟩

end Buzz.DevMcp
