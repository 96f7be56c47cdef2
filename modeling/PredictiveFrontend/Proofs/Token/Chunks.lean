import PredictiveFrontend.Proofs.Token.Pieces

/-!
# Sources in chunks

A source can be handed to a scan in chunks that end with line feeds. The lines of a chunk are
numbered behind those of the chunks in front of it, and its scan begins in the mode that they leave.
What the chunks come to, one after the other, is what the whole source comes to, up to the first
error.
-/

namespace PredictiveFrontend

namespace SourceLine

/-- The line as it is numbered behind other lines. -/
def below (count : Nat) (l : SourceLine) : SourceLine :=
  { l with number := l.number + count }

theorem map_below_map_below (ls : List SourceLine) (count count' : Nat) :
    (ls.map (below count)).map (below count') = ls.map (below (count + count')) := by
  simp [below, Function.comp_def, Nat.add_assoc]

theorem map_below_zero (ls : List SourceLine) : ls.map (below 0) = ls :=
  List.map_id ls

/-- Behind a line feed the lines of a source are those of what is left, numbered from there. -/
theorem ofSource_append (source rest : String) :
    ofSource (source ++ "\n" ++ rest) = ofSource (source ++ "\n") ++
      (ofSource rest).map (below (ofSource (source ++ "\n")).length) := by
  have hfeed : "\n".toList = ['\n'] := rfl
  simp only [ofSource, String.toList_append, hfeed, List.append_assoc, List.singleton_append,
    Text.lines_append_lineFeed source.toList rest.toList, List.zipIdx_append, List.map_append,
    List.length_map, List.length_zipIdx, List.map_map]
  congr 1
  apply List.ext_getElem?
  intro i
  simp only [List.getElem?_map, List.getElem?_zipIdx, Option.map_map]
  congr 1
  funext text
  simp only [Function.comp_apply, below, mk.injEq, and_true]
  omega

end SourceLine

namespace Scan

variable {mode : CommentMode}

/-- The scan of chunks of a source, one after the other. -/
def ofChunks (mode : CommentMode) (count : Nat) : List String → Scan
  | [] => ⟨.ok [], mode⟩
  | chunk :: others =>
    (lines mode ((SourceLine.ofSource chunk).map (SourceLine.below count))).followedBy fun next =>
      ofChunks next (count + (SourceLine.ofSource chunk).length) others

/-- Two chunks are scanned as the one that they make up. -/
theorem lines_ofSource_append (mode : CommentMode) (count : Nat) (source rest : String) :
    lines mode ((SourceLine.ofSource (source ++ "\n" ++ rest)).map (SourceLine.below count)) =
      (lines mode ((SourceLine.ofSource (source ++ "\n")).map (SourceLine.below count))).followedBy
        fun next => lines next ((SourceLine.ofSource rest).map
          (SourceLine.below (count + (SourceLine.ofSource (source ++ "\n")).length))) := by
  rw [SourceLine.ofSource_append, List.map_append, lines_append, SourceLine.map_below_map_below,
    Nat.add_comm count]

/-- Chunks that end with line feeds, but for the last one, are scanned as the source that they make
up. -/
theorem ofChunks_eq (mode : CommentMode) (count : Nat) (chunks : List String) (last : String) :
    ofChunks mode count (chunks.map (· ++ "\n") ++ [last]) =
      lines mode ((SourceLine.ofSource (String.join (chunks.map (· ++ "\n")) ++ last)).map
        (SourceLine.below count)) := by
  induction chunks generalizing mode count with
  | nil =>
    simp only [List.map_nil, List.nil_append, ofChunks, followedBy_nil]
    rfl
  | cons chunk others ih =>
    rw [List.map_cons, List.cons_append, ofChunks, String.join_cons, String.append_assoc,
      lines_ofSource_append]
    simp only [ih]

/-- A source that is cut behind a line feed is scanned in two chunks as it is as a whole: the tokens
of the second one, on lines that are numbered on, follow those of the first one, the modes are the
same, and so is the error if there is one in either chunk. -/
theorem chunks_agree (mode : CommentMode) (source rest : String) :
    let first := lines mode (SourceLine.ofSource (source ++ "\n"))
    let second := lines first.mode ((SourceLine.ofSource rest).map
      (SourceLine.below (SourceLine.ofSource (source ++ "\n")).length))
    let whole := lines mode (SourceLine.ofSource (source ++ "\n" ++ rest))
    (∀ tokens others, first.result = .ok tokens → second.result = .ok others →
      whole = ⟨.ok (tokens ++ others), second.mode⟩) ∧
    (∀ e, first.result = .error e → whole = ⟨.error e, first.mode⟩) ∧
    ∀ tokens e, first.result = .ok tokens → second.result = .error e →
      whole = ⟨.error e, second.mode⟩ := by
  intro first second whole
  have hwhole : whole = first.followedBy fun next => lines next ((SourceLine.ofSource rest).map
      (SourceLine.below (SourceLine.ofSource (source ++ "\n")).length)) := by
    have hcut := lines_ofSource_append mode 0 source rest
    simpa only [SourceLine.map_below_zero, Nat.zero_add] using hcut
  refine ⟨fun tokens others hfirst hsecond => ?_, fun e hfirst => ?_,
    fun tokens e hfirst hsecond => ?_⟩
  · rw [hwhole, followedBy_of_ok hfirst, hsecond]
    rfl
  · rw [hwhole, followedBy_of_error hfirst]
  · rw [hwhole, followedBy_of_ok hfirst, hsecond]
    rfl

/-- The cut can be inside a block comment, behind an empty chunk or in front of an error. -/
theorem chunks_agree_commented :
    lines .code (SourceLine.ofSource ("x /* a" ++ "\n" ++ "b */ 1")) =
      ⟨.ok ([⟨1, 1, 1, "x", .identifier⟩, ⟨2, 1, 2, " ", .whiteSpace⟩,
        ⟨3, 1, 4, "/*", .blockCommentStart⟩, ⟨5, 1, 5, " ", .comment⟩, ⟨6, 1, 6, "a", .comment⟩] ++
        [⟨1, 2, 1, "b", .comment⟩, ⟨2, 2, 2, " ", .comment⟩, ⟨3, 2, 4, "*/", .blockCommentEnd⟩,
          ⟨5, 2, 5, " ", .whiteSpace⟩, ⟨6, 2, 6, "1", .intLiteral⟩]), .code⟩ ∧
      lines .code (SourceLine.ofSource ("/* #" ++ "\n" ++ "*/")) =
        ⟨.error ⟨1, 4, "#"⟩, .blockComment⟩ ∧
      lines .blockComment (SourceLine.ofSource ("" ++ "\n" ++ "*/ é")) =
        ⟨.error ⟨2, 4, "é"⟩, .code⟩ := by
  obtain ⟨hok, -, -⟩ := chunks_agree .code "x /* a" "b */ 1"
  obtain ⟨-, hfirst, -⟩ := chunks_agree .code "/* #" "*/"
  obtain ⟨-, -, hsecond⟩ := chunks_agree .blockComment "" "*/ é"
  have hopen : (lines .code (SourceLine.ofSource ("x /* a" ++ "\n"))).mode = .blockComment := by
    decide +kernel
  have hclosed : (lines .blockComment ((SourceLine.ofSource "b */ 1").map (SourceLine.below
      (SourceLine.ofSource ("x /* a" ++ "\n")).length))).mode = .code := by
    decide +kernel
  have hcomment : (lines .code (SourceLine.ofSource ("/* #" ++ "\n"))).mode = .blockComment := by
    decide +kernel
  have hempty : (lines .blockComment (SourceLine.ofSource ("" ++ "\n"))).mode = .blockComment := by
    decide +kernel
  have hcode : (lines .blockComment ((SourceLine.ofSource "*/ é").map (SourceLine.below
      (SourceLine.ofSource ("" ++ "\n")).length))).mode = .code := by
    decide +kernel
  rw [hopen, hclosed] at hok
  rw [hcomment] at hfirst
  rw [hempty, hcode] at hsecond
  refine ⟨hok _ _ ?_ ?_, hfirst _ ?_, hsecond [] _ ?_ ?_⟩
  · decide +kernel
  · decide +kernel
  · decide +kernel
  · decide +kernel
  · decide +kernel

end Scan

end PredictiveFrontend
