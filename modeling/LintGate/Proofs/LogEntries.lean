import LintGate.Proofs.LogGrowth

/-! # Entries of a raw log

Each entry of a log frames its header on lines of its own, whatever was written before, and ends its
last line, whatever the streams end in. Where one entry can be written, any number of them can: the
log gains their texts in order, and apart from it the tree gains directories at most, on the way of
the directory of the log.
-/

namespace LintGate

theorem Text.Utf8.encode_append (s s' : List Char) : encode (s ++ s') = encode s ++ encode s' :=
  List.flatMap_append

theorem Text.Utf8.getLast?_encode {s : List Char} (h : s.getLast? = some '\n') :
    (encode s).getLast? = some 10 := by
  obtain ⟨front, rfl⟩ := List.getLast?_eq_some_iff.mp h
  rw [encode_append]
  exact List.getLast?_concat

namespace RawLog

/-- A stream is written down as its label on a line and its whole text, to which a newline is added
if there is none at its end. Of an empty stream nothing is written. -/
inductive Written (label text : String) : String → Prop
  | nothing (empty : text = "") : Written label text ""
  | ended (full : text ≠ "") (newline : text.toList.getLast? = some '\n') :
    Written label text ("--- " ++ label ++ " ---\n" ++ text)
  | unended (full : text ≠ "") (newline : text.toList.getLast? ≠ some '\n') :
    Written label text ("--- " ++ label ++ " ---\n" ++ text ++ "\n")

theorem stream_written (label text : String) : Written label text (stream label text) := by
  rw [stream]
  by_cases hempty : text = ""
  · rw [if_pos hempty]
    exact .nothing hempty
  · rw [if_neg hempty]
    by_cases hnewline : text.toList.getLast? = some '\n'
    · rw [if_pos hnewline, String.append_empty]
      exact .ended hempty hnewline
    · rw [if_neg hnewline]
      exact .unended hempty hnewline

theorem Written.getLast? {label text shown : String} (h : Written label text shown) {front : String}
    (hfront : front.toList.getLast? = some '\n') :
    (front ++ shown).toList.getLast? = some '\n' := by
  cases h with
  | nothing => rwa [String.append_empty]
  | ended _ hnewline =>
    rw [String.toList_append, String.toList_append, List.getLast?_append, List.getLast?_append,
      hnewline]
    rfl
  | unended =>
    rw [String.toList_append, String.toList_append, ← List.append_assoc]
    exact List.getLast?_concat

def frame (header : String) : String := "\n" ++ rule ++ "\n" ++ header ++ "\n" ++ rule ++ "\n"

variable {log : RawLog} {engine : String} {t u : FileTree} {place : Place}

section Entry

variable (now : Instant) (engine stdout stderr config : String)

theorem entry_eq : entry now engine stdout stderr config =
    frame (header now engine config) ++ stream "stdout" stdout ++ stream "stderr" stderr := rfl

theorem frame_ruff : frame (header now Ruff.engineName config) =
    "\n============================================================\n" ++
      "[" ++ now.stamp ++ "] RUFF raw output" ++
      (if config = "" then "" else " (config: " ++ config ++ ")") ++
      "\n============================================================\n" := by
  have hrule : rule = "============================================================" := by decide
  have htitle : String.ofList (Text.upper "ruff".toList) = "RUFF" := by decide +kernel
  have htext (s : String) : ToString.toString s = s := rfl
  rw [frame, header, hrule, Ruff.engineName]
  simp only [htitle, htext, String.append_assoc]
  rfl

/-- Whatever the streams are, the last line of an entry is ended. -/
theorem getLast?_entry : (entry now engine stdout stderr config).toList.getLast? = some '\n' := by
  have hframe : (frame (header now engine config)).toList.getLast? = some '\n' := by
    rw [frame, String.toList_append]
    exact List.getLast?_concat
  rw [entry_eq]
  exact (stream_written "stderr" stderr).getLast? ((stream_written "stdout" stdout).getLast? hframe)

end Entry

def bytes (entries : List String) : List UInt8 :=
  entries.flatMap fun e => Text.Utf8.encode e.toList

theorem bytes_nil : bytes [] = [] := rfl

theorem bytes_concat (entries : List String) (e : String) :
    bytes (entries ++ [e]) = bytes entries ++ Text.Utf8.encode e.toList := by
  rw [bytes, List.flatMap_append, List.flatMap_singleton]
  rfl

/-- The log ends in a newline as soon as there is an entry in it. -/
theorem getLast?_bytes_concat (old : List UInt8) (entries : List String) (now : Instant)
    (engine stdout stderr config : String) :
    (old ++ bytes (entries ++ [entry now engine stdout stderr config])).getLast? = some 10 := by
  rw [bytes_concat, List.getLast?_append, List.getLast?_append,
    Text.Utf8.getLast?_encode (getLast?_entry now engine stdout stderr config)]
  rfl

def Writable (log : RawLog) (engine : String) (t : FileTree) : Prop :=
  ∃ now stdout stderr config, (log.append t now engine stdout stderr config).2 = none

def opened (log : RawLog) (t : FileTree) : FileTree :=
  (t.makeDirectories log.directory.toList).1

/-- The tree with entries more in the log at a place; without an entry not even the directory of the
log is made. -/
def grown (log : RawLog) (t : FileTree) (place : Place) (entries : List String) : FileTree :=
  if entries = [] then t else (log.opened t).extend place (bytes entries)

theorem grown_nil (log : RawLog) (t : FileTree) (place : Place) : log.grown t place [] = t := rfl

theorem grown_of_ne_nil {entries : List String} (h : entries ≠ []) :
    log.grown t place entries = (log.opened t).extend place (bytes entries) := if_neg h

/-- The directory of the log is there or can be made, and then its log can be written at a place. -/
structure OpensAt (log : RawLog) (engine : String) (t : FileTree) (place : Place) : Prop where
  made : (t.makeDirectories log.directory.toList).2 = none
  ready : log.Ready engine (log.opened t) place

theorem opened_madeAlong (log : RawLog) (t : FileTree) :
    t.MadeAlong log.directory (log.opened t) := by
  have hmade := t.makeDirectories_madeAlong log.directory.toList
  rwa [String.ofList_toList] at hmade

theorem names_pathFor (hname : FileTree.isPlain ("raw_" ++ engine ++ ".log") = true) :
    FileTree.names (log.pathFor engine).toList =
      FileTree.names log.directory.toList ++ ["raw_" ++ engine ++ ".log"] := by
  have hlast := FileTree.names_of_isPlain hname
  rw [pathFor]
  split_ifs with hslash
  · simp only [Bool.or_eq_true, decide_eq_true_eq] at hslash
    rcases hslash with hempty | hslash
    · rw [hempty, String.empty_append, hlast]
      rfl
    · obtain ⟨front, hfront⟩ := List.getLast?_eq_some_iff.mp hslash
      rw [String.toList_append, hfront, List.append_assoc, List.singleton_append,
        FileTree.names_append_slash, FileTree.names_append_slash, hlast, FileTree.names_nil,
        List.append_nil]
  · rw [String.toList_append, String.toList_append, List.append_assoc]
    exact (FileTree.names_append_slash _ _).trans (congrArg _ hlast)

theorem pathFor_isFront (hname : FileTree.isPlain ("raw_" ++ engine ++ ".log") = true) :
    FileTree.IsFront log.directory.toList (log.pathFor engine).toList := by
  constructor
  · rw [pathFor]
    split_ifs
    · rw [String.toList_append]
      exact List.prefix_append _ _
    · rw [String.toList_append, String.toList_append, List.append_assoc]
      exact List.prefix_append _ _
  · rw [names_pathFor hname]
    exact List.prefix_append _ _

section Opens

variable (hname : FileTree.isPlain ("raw_" ++ engine ++ ".log") = true)

include hname

/-- A log that can be written in a directory is ready: its own directory is this one. -/
theorem ready_of_parent (hne : log.directory.toList ≠ []) {above : Place} {last : String}
    (hparent : t.parent (log.pathFor engine) = .ok (some (above, last))) (hpoint : last ≠ ".")
    (hup : last ≠ "..") (hfree : t.find? (above ++ [last]) ≠ some .directory) :
    log.Ready engine t (above ++ [last]) := by
  obtain ⟨hrefusal, -, hfollow, hdirectory, -⟩ := FileTree.parent_eq_ok_iff.mp hparent
  have hfront : FileTree.IsFront log.directory.toList (log.pathFor engine).toList :=
    pathFor_isFront hname
  have hroute := (hfront.route (t := t) hne).1
  have hrefused := hfront.refusal? hne
  have hnames : (t.route (log.pathFor engine)).2.dropLast = (t.route log.directory).2 := by
    rw [FileTree.route_eq, FileTree.route_eq, names_pathFor hname, List.dropLast_concat]
  simp only [String.ofList_toList] at hroute hrefused
  rw [hnames, ← hroute] at hfollow
  refine ⟨FileTree.isDirectory_of_follow (hrefused hrefusal) hfollow hdirectory, ?_,
    ⟨above, last, hparent, rfl, hpoint, hup⟩, hfree⟩
  refine FileTree.above_of_follow ?_ ?_ hdirectory
  · rw [String.ofList_toList]
    exact hrefused hrefusal
  · rw [String.ofList_toList]
    exact hfollow

theorem Writable.opensAt (h : log.Writable engine t) : ∃ place, log.OpensAt engine t place := by
  obtain ⟨now, stdout, stderr, config, happend⟩ := h
  rw [append] at happend
  rcases hmade : t.makeDirectories log.directory.toList with ⟨made, _ | fault⟩
  · have hopened : log.opened t = made := by rw [opened, hmade]
    have hne : log.directory.toList ≠ [] := by
      intro hnil
      rw [hnil] at hmade
      exact t.makeDirectories_nil (by rw [hmade])
    simp only [hmade] at happend
    cases hwritten : made.append (log.pathFor engine)
        (Text.Utf8.encode (entry now engine stdout stderr config).toList) with
    | error fault => simp [hwritten] at happend
    | ok written =>
      obtain ⟨above, last, hparent, hpoint, hup, hfree, -⟩ := FileTree.change_eq_ok hwritten
      rw [← hopened] at hparent hfree
      exact ⟨above ++ [last], by rw [hmade],
        ready_of_parent hname hne hparent hpoint hup hfree⟩
  · simp [hmade] at happend

omit hname in
/-- An entry more is added behind the others. -/
theorem OpensAt.append (h : log.OpensAt engine t place) (entries : List String) (now : Instant)
    (stdout stderr config : String) :
    log.append (log.grown t place entries) now engine stdout stderr config =
      (log.grown t place (entries ++ [entry now engine stdout stderr config]), none) := by
  rw [grown_of_ne_nil (List.append_ne_nil_of_right_ne_nil _ (List.cons_ne_nil _ _)), bytes_concat]
  by_cases hentries : entries = []
  · have hmade : t.makeDirectories log.directory.toList = (log.opened t, none) :=
      Prod.ext rfl h.made
    have hopened := h.ready.append now stdout stderr config
    rw [RawLog.append, h.ready.makeDirectories] at hopened
    rw [hentries, grown_nil, RawLog.append, hmade, bytes_nil, List.nil_append]
    exact hopened
  · have hready := (h.ready.put ((log.opened t).contentAt place ++ bytes entries)).append now stdout
      stderr config
    rw [← FileTree.extend, FileTree.extend_extend h.ready.ne_nil] at hready
    rw [grown_of_ne_nil hentries, hready]

/-- The second tree is the first one with entries more at the end of the log: without an entry, the
first one as it was. All other files and all directories are there as before, and what is new beside
the log are directories on the way of its own. -/
structure Gained (log : RawLog) (engine : String) (t : FileTree) (place : Place)
    (entries : List String) (u : FileTree) : Prop where
  idle : entries = [] → u = t
  working : u.working = t.working
  content : entries ≠ [] → u.resolve (log.pathFor engine) = .ok place ∧
    u.find? place = some (.file (t.contentAt place ++ bytes entries))
  others : ∀ q, q ≠ place → ∀ content,
    u.find? q = some (.file content) ↔ t.find? q = some (.file content)
  kept : ∀ q, t.find? q = some .directory → u.find? q = some .directory
  made : ∀ q, u.find? q = some .directory →
    t.find? q = some .directory ∨ t.find? q = none ∧ u.OnWay log.directory q

/-- Nothing but the log grows. -/
theorem OpensAt.gained (h : log.OpensAt engine t place) (entries : List String) :
    log.Gained engine t place entries (log.grown t place entries) := by
  by_cases hentries : entries = []
  · rw [hentries, grown_nil]
    exact ⟨fun _ => rfl, rfl, nofun, fun _ _ _ => .rfl, fun _ => id, fun _ => .inl⟩
  · have hroot := h.ready.ne_nil
    have hopened := log.opened_madeAlong t
    have hwithin : (log.opened t).Within ((log.opened t).extend place (bytes entries)) :=
      FileTree.within_put hroot h.ready.free _
    have hfind : ∀ q, ((log.opened t).extend place (bytes entries)).find? q =
        if q = place then some (.file (t.contentAt place ++ bytes entries))
        else (log.opened t).find? q := by
      rw [← hopened.contentAt]
      exact FileTree.find?_put hroot _
    rw [grown_of_ne_nil hentries]
    refine ⟨fun hnil => absurd hnil hentries, hopened.working, fun _ => ?_, fun q hq content => ?_,
      fun q hq => hwithin.directory q (hopened.within.directory q hq), fun q hq => ?_⟩
    · have hplace := hfind place
      rw [if_pos rfl] at hplace
      obtain ⟨above, hparent, rfl⟩ := h.ready.own_name hname
      refine ⟨?_, hplace⟩
      exact (endsIn_pathFor log engine).resolve_of_parent hname (hwithin.parent hparent)
        (by rw [hplace]; rfl)
    · rw [hfind, if_neg hq]
      exact hopened.find_file q content
    · have hthere := hfind q
      rw [hq] at hthere
      split_ifs at hthere
      · cases hthere
      · exact (hopened.onWay hthere.symm).imp_right fun ⟨hnone, hway⟩ => ⟨hnone, hway.mono hwithin⟩

end Opens

end RawLog

end LintGate
