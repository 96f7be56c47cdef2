import PredictiveFrontend.Proofs.Token.Delimiters

/-!
# Places of tokens

The tokens of a source stand at different places: those of one line in different columns, and those
of different lines in lines with different numbers.
-/

namespace PredictiveFrontend

namespace Token

/-- The line and the column of a token. -/
def place (t : Token) : Nat × Nat :=
  (t.line, t.column)

/-- Tokens that lie side by side begin in different columns. -/
theorem Tile.pairwise_place_ne {line column : Nat} {text remainder : List Char}
    {tokens : List Token} (h : Tile line column text remainder tokens) :
    tokens.Pairwise fun t u => t.place ≠ u.place := by
  have hchain : tokens.IsChain fun t u => t.column < u.column := by
    refine List.IsChain.imp_of_mem_imp (fun t u ht _ hnext => ?_) h.column_next
    rw [hnext]
    exact Nat.lt_succ_of_le (h.width t ht).1
  have htrans : IsTrans Token fun t u => t.column < u.column := ⟨fun _ _ _ => Nat.lt_trans⟩
  refine (List.isChain_iff_pairwise.mp hchain).imp fun hlt he => ?_
  exact Nat.ne_of_lt hlt (congrArg Prod.snd he)

end Token

/-- The tokens of different lines stand in different lines. -/
theorem Scan.Groups.pairwise_place_ne {ls : List SourceLine} {groups : List (List Token)}
    (h : Groups ls groups) (hlines : (ls.map SourceLine.number).Nodup) :
    groups.flatten.Pairwise fun t u => t.place ≠ u.place := by
  induction h with
  | nil => exact .nil
  | @cons line group ls groups htile hrest ih =>
    obtain ⟨hline, hlines⟩ := List.nodup_cons.mp hlines
    rw [List.flatten_cons, List.pairwise_append]
    refine ⟨htile.pairwise_place_ne, ih hlines, fun t ht u hu he => hline ?_⟩
    obtain ⟨other, hother, hu⟩ := List.mem_flatten.mp hu
    obtain ⟨line', hline', htile'⟩ := exists_of_forall₂_of_mem hrest hother
    have hsame : line.number = line'.number :=
      (htile.line_eq t ht).symm.trans ((congrArg Prod.fst he).trans (htile'.line_eq u hu))
    rw [hsame]
    exact List.mem_map_of_mem hline'

/-- The tokens of a source stand at different places. -/
theorem Token.nodup_places {source : String} {tokens : List Token}
    (h : ofSource source = .ok tokens) : (tokens.map place).Nodup := by
  obtain ⟨groups, hgroups, rfl⟩ := (Scan.lines_groups .code _).1 tokens h
  have hlines := (List.nodup_cons.mp (SourceLine.nodup_numbers source)).2
  exact List.pairwise_map.mpr (hgroups.pairwise_place_ne hlines)

end PredictiveFrontend
