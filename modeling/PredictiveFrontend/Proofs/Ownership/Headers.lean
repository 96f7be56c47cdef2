import PredictiveFrontend.Proofs.Ownership.Partition
import PredictiveFrontend.Proofs.Result
import PredictiveFrontend.Token.Scan

/-!
# What headers take with them

A header goes on to the next brace, whatever stands in between. If the header has no body of its own
and another one follows before any brace does, both are taken for one header, and the body of the
second falls to the owner that the first announces. The declarations in between are left out with
the header.
-/

namespace PredictiveFrontend

namespace Ownership

variable {ts : List Token} {j n : Nat} {x : Body}

instance (ts : List Token) (j : Nat) : Decidable (IsKeyword ts j) :=
  inferInstanceAs (Decidable (_ ∨ _))

instance (ts : List Token) (j : Nat) : Decidable (IsBrace ts j) :=
  inferInstanceAs (Decidable (_ ∨ _))

/-- A keyword with which a declaration begins. -/
def IsDeclaration (ts : List Token) (j : Nat) : Prop :=
  IsKeyword ts j ∨ KindAt ts j .valKeyword ∨ KindAt ts j .varKeyword

/-- The next brace, from a position on, is an opening one. -/
def OpensNext (ts : List Token) (j : Nat) : Prop :=
  ∃ b, j ≤ b ∧ KindAt ts b .openCurly ∧ ∀ c < b, j ≤ c → ¬IsBrace ts c

/-- A position at or behind a keyword of a class or a function, with no brace since. -/
def InHeader (ts : List Token) (j : Nat) : Prop :=
  ∃ k ≤ j, IsKeyword ts k ∧ ∀ b ≤ j, k ≤ b → ¬IsBrace ts b

theorem IsDeclaration.not_isBrace (h : IsDeclaration ts j) : ¬IsBrace ts j := by
  rcases h with h | h | h
  · exact h.not_isBrace
  · rintro (hb | hb) <;> cases h.eq hb
  · rintro (hb | hb) <;> cases h.eq hb

/-- Every position is in code or behind the beginning of a header. -/
theorem inCode_or_isHeader (ts : List Token) (n : Nat) : InCode ts n ∨ ∃ k, IsHeader ts k n := by
  induction n with
  | zero => exact Or.inl fun k hk => absurd hk (Nat.not_lt_zero k)
  | succ n ih =>
    by_cases hbrace : IsBrace ts n
    · exact Or.inl (.of_isBrace hbrace)
    · rcases ih with hcode | ⟨k, hk⟩
      · by_cases hkeyword : IsKeyword ts n
        · exact Or.inr ⟨n, .start hkeyword hcode⟩
        · exact Or.inl (hcode.succ hkeyword)
      · exact Or.inr ⟨k, hk.succ hbrace⟩

theorem InHeader.exists_isHeader (h : InHeader ts j) : ∃ k, IsHeader ts k (j + 1) := by
  refine (inCode_or_isHeader ts (j + 1)).resolve_left fun hcode => ?_
  obtain ⟨k, hkj, hkeyword, hbrace⟩ := h
  obtain ⟨b, hkb, hbj, hb⟩ := hcode k (Nat.lt_succ_of_le hkj) hkeyword
  exact hbrace b (Nat.le_of_lt_succ hbj) (Nat.le_of_lt hkb) hb

theorem OpensNext.succ (h : OpensNext ts j) (hj : ¬IsBrace ts j) : OpensNext ts (j + 1) := by
  obtain ⟨b, hjb, hopen, hnext⟩ := h
  have hne : j ≠ b := by
    rintro rfl
    exact hj (Or.inl hopen)
  exact ⟨b, Nat.lt_of_le_of_ne hjb hne, hopen, fun c hc hjc => hnext c hc (Nat.le_of_succ_le hjc)⟩

/-- Inside the header of a body the brace of the body comes next. -/
theorem IsBody.opensNext (hx : IsBody ts x) (hkeyword : x.keyword ≤ j) (hbrace : j < x.brace) :
    OpensNext ts j :=
  ⟨x.brace, Nat.le_of_lt hbrace, hx.2, fun c hc hjc =>
    hx.1.no_brace c (Nat.le_trans hkeyword hjc) hc⟩

/-- A header behind which an opening brace comes next is the header of a body. -/
theorem IsHeader.exists_isBody {k : Nat} (h : IsHeader ts k n) (hopens : OpensNext ts n) :
    ∃ b, n ≤ b ∧ IsBody ts ⟨k, b⟩ := by
  obtain ⟨b, hnb, hopen, hnext⟩ := hopens
  refine ⟨b, hnb, ⟨Nat.lt_of_lt_of_le h.lt hnb, h.isKeyword, h.inCode, fun i hki hib => ?_⟩, hopen⟩
  rcases Nat.lt_or_ge i n with hin | hni
  · exact h.no_brace i hki hin
  · exact hnext i hib hni

/-- In the header of a body is what is in a header in front of an opening brace. -/
theorem exists_isBody_iff : (∃ x, IsBody ts x ∧ x.keyword ≤ j ∧ j < x.brace) ↔
    InHeader ts j ∧ OpensNext ts j := by
  constructor
  · rintro ⟨x, hx, hkeyword, hbrace⟩
    refine ⟨⟨x.keyword, hkeyword, hx.1.isKeyword, fun b hb hxb => ?_⟩,
      hx.opensNext hkeyword hbrace⟩
    exact hx.1.no_brace b hxb (Nat.lt_of_le_of_lt hb hbrace)
  · rintro ⟨hheader, hopens⟩
    obtain ⟨k, hk⟩ := hheader.exists_isHeader
    have hkj : k ≤ j := Nat.le_of_lt_succ hk.lt
    obtain ⟨b, hjb, hbody⟩ :=
      hk.exists_isBody (hopens.succ (hk.no_brace j hkj (Nat.lt_succ_self j)))
    exact ⟨⟨k, b⟩, hbody, hkj, hjb⟩

/-- Nobody owns the braces of bodies and what stands in their headers. -/
theorem unowned_iff : Unowned ts j ↔
    (∃ x, IsBody ts x ∧ (j = x.brace ∨ Closes ts x.brace j)) ∨
      InHeader ts j ∧ OpensNext ts j := by
  rw [← exists_isBody_iff]
  constructor
  · rintro ⟨x, hx, ⟨hkeyword, hbrace⟩ | hcloses⟩
    · rcases Nat.eq_or_lt_of_le hbrace with rfl | hlt
      · exact Or.inl ⟨x, hx, Or.inl rfl⟩
      · exact Or.inr ⟨x, hx, hkeyword, hlt⟩
    · exact Or.inl ⟨x, hx, Or.inr hcloses⟩
  · rintro (⟨x, hx, rfl | hcloses⟩ | ⟨x, hx, hkeyword, hbrace⟩)
    · exact ⟨x, hx, Or.inl ⟨Nat.le_of_lt hx.1.lt, Nat.le_refl _⟩⟩
    · exact ⟨x, hx, Or.inr hcloses⟩
    · exact ⟨x, hx, Or.inl ⟨hkeyword, Nat.le_of_lt hbrace⟩⟩

/-- The header of a body holds no declaration beside its own. -/
def IsSingle (ts : List Token) (x : Body) : Prop :=
  ∀ i, x.keyword < i → i < x.brace → ¬IsDeclaration ts i

end Ownership

namespace Partition

open Ownership

/-- Where every significant token is placed: the number of its partition, if it is in one. -/
def places (tokens : List Token) : List (Option Nat) :=
  ((Token.significant tokens).foldl State.read .initial).giveBack.assigned.map Prod.fst

/-- A significant token that is in no partition. -/
def LeftOut (tokens : List Token) (j : Nat) : Prop :=
  (places tokens)[j]? = some none

/-- Every token that is left out is a brace of a body or stands in a header that holds no second
declaration. -/
def SwallowsNothing (tokens : List Token) : Prop :=
  ∀ j, LeftOut tokens j → ∃ x, IsBody (Token.significant tokens) x ∧
    (j = x.brace ∨ Closes (Token.significant tokens) x.brace j ∨
      x.keyword ≤ j ∧ j < x.brace ∧ IsSingle (Token.significant tokens) x)

/-- Left out is what nobody owns. -/
theorem leftOut_iff_unowned (tokens : List Token) (j : Nat) :
    LeftOut tokens j ↔ Unowned (Token.significant tokens) j := by
  obtain ⟨bodies, opens, h, hlen⟩ := exists_reached_giveBack (Token.significant tokens)
  rw [LeftOut, places, List.getElem?_map]
  generalize ((Token.significant tokens).foldl State.read .initial).giveBack = s at h hlen
  constructor
  · intro hj
    obtain ⟨p, hp, hnone⟩ := Option.map_eq_some_iff.mp hj
    have hplaced := (h.assigned j p hp).2
    rwa [hnone] at hplaced
  · intro hj
    have hlt : j < s.assigned.length := by
      rw [hlen]
      obtain ⟨x, hx, ⟨-, hbrace⟩ | hcloses⟩ := hj
      · exact Nat.lt_of_le_of_lt hbrace hx.2.lt_length
      · exact hcloses.kindAt.lt_length
    have hp := List.getElem?_eq_getElem hlt
    have hplaced := (h.assigned j _ hp).2
    rw [hp, Option.map_some]
    cases ho : s.assigned[j].1 with
    | none => rfl
    | some i =>
      rw [ho] at hplaced
      exact absurd hj hplaced.1

variable {tokens : List Token}

/-- The headers of bodies hold no second declaration exactly if no declaration stands in a header
behind which an opening brace comes next. -/
theorem swallowsNothing_iff : SwallowsNothing tokens ↔
    ∀ j, IsDeclaration (Token.significant tokens) j → OpensNext (Token.significant tokens) j →
      InCode (Token.significant tokens) j := by
  constructor
  · intro h j hj hopens
    rcases inCode_or_isHeader (Token.significant tokens) j with hcode | ⟨k, hk⟩
    · exact hcode
    · obtain ⟨b, hjb, hbody⟩ := hk.exists_isBody hopens
      have hleft : LeftOut tokens j :=
        (leftOut_iff_unowned tokens j).mpr ⟨_, hbody, Or.inl ⟨Nat.le_of_lt hk.lt, hjb⟩⟩
      obtain ⟨x, hx, rfl | hcloses | ⟨hxj, hjx, hsingle⟩⟩ := h j hleft
      · exact absurd (Or.inl hx.2) hj.not_isBrace
      · exact absurd (Or.inr hcloses.kindAt) hj.not_isBrace
      · rcases Nat.eq_or_lt_of_le hxj with rfl | hxj
        · exact hx.1.inCode
        · exact absurd hj (hsingle j hxj hjx)
  · intro h j hj
    obtain ⟨x, hx, ⟨hkeyword, hbrace⟩ | hcloses⟩ := (leftOut_iff_unowned tokens j).mp hj
    · rcases Nat.eq_or_lt_of_le hbrace with rfl | hlt
      · exact ⟨x, hx, Or.inl rfl⟩
      · refine ⟨x, hx, Or.inr (Or.inr ⟨hkeyword, hlt, fun i hxi hix hi => ?_⟩)⟩
        -- A declaration in code has a brace in front of it, behind the keyword of the header.
        obtain ⟨b, hxb, hbi, hb⟩ :=
          h i hi (hx.opensNext (Nat.le_of_lt hxi) hix) x.keyword hxi hx.1.isKeyword
        exact hx.1.no_brace b (Nat.le_of_lt hxb) (Nat.lt_trans hbi hix) hb
    · exact ⟨x, hx, Or.inr (Or.inl hcloses)⟩

/-- What is in a partition is what is placed there, and whatever is not left out is in one. -/
theorem tokens_of_places (tokens : List Token) :
    (places tokens).length = (Token.significant tokens).length ∧
    (∀ i, some i ∈ places tokens → i < (ofTokens tokens).length) ∧
    ∀ i p, (ofTokens tokens)[i]? = some p →
      p.tokens = tokensAt (places tokens) (Token.significant tokens) i := by
  obtain ⟨bodies, opens, h, hlen⟩ := exists_reached_giveBack (Token.significant tokens)
  rw [places, ofTokens]
  generalize ((Token.significant tokens).foldl State.read .initial).giveBack = s at h hlen
  have htokens := h.map_snd_assigned hlen
  refine ⟨by rw [List.length_map, hlen], fun i hi => ?_, fun i p hp => ?_⟩
  · obtain ⟨q, hq, hi⟩ := List.mem_map.mp hi
    obtain ⟨j, hj⟩ := List.mem_iff_getElem?.mp hq
    obtain ⟨-, hplaced⟩ := h.assigned j q hj
    rw [hi] at hplaced
    simp only [State.partitions, List.length_map, List.length_zipIdx, h.owners_eq,
      List.length_cons]
    cases i with
    | zero => exact Nat.succ_pos _
    | succ i =>
      obtain ⟨-, x, hx, -⟩ := hplaced
      exact Nat.succ_lt_succ (List.getElem?_eq_some_iff.mp hx).1
  · simp only [State.partitions, List.getElem?_map, List.getElem?_zipIdx, Nat.zero_add,
      Option.map_eq_some_iff] at hp
    obtain ⟨-, ⟨owner, -, rfl⟩, rfl⟩ := hp
    rw [tokensAt, ← List.zip_of_prod rfl htokens]

/-- A significant token is in the partition where it is placed, or it is left out of all of them.
Left out are the braces of bodies and whatever stands in a header behind which an opening brace
comes next, whether or not the header is meant for this body. So the headers swallow no declaration
exactly if every declaration stands in code behind which an opening brace comes next. -/
theorem headers_leave_out (tokens : List Token) :
    ((places tokens).length = (Token.significant tokens).length ∧
      (∀ i, some i ∈ places tokens → i < (ofTokens tokens).length) ∧
      ∀ i p, (ofTokens tokens)[i]? = some p →
        p.tokens = tokensAt (places tokens) (Token.significant tokens) i) ∧
    (∀ j, LeftOut tokens j ↔
      (∃ x, IsBody (Token.significant tokens) x ∧
        (j = x.brace ∨ Closes (Token.significant tokens) x.brace j)) ∨
      InHeader (Token.significant tokens) j ∧ OpensNext (Token.significant tokens) j) ∧
    (SwallowsNothing tokens ↔
      ∀ j, IsDeclaration (Token.significant tokens) j →
        OpensNext (Token.significant tokens) j → InCode (Token.significant tokens) j) := by
  refine ⟨tokens_of_places tokens, fun j => ?_, swallowsNothing_iff⟩
  rw [leftOut_iff_unowned, unowned_iff]

/-- A class without a body takes the value behind it into the header of the next function, and it
takes the body of the function for its own. -/
theorem class_swallows_declarations :
    ∃ tokens, Token.ofSource "class C\nval x: Int\nfun f() \x7b x \x7d" = .ok tokens ∧
      (ofTokens tokens).map (fun p => (p.owner, p.tokens.map Token.lexeme)) =
        [(.topLevel, []), (⟨.class_, "C"⟩, ["x"])] ∧
      ¬SwallowsNothing tokens := by
  have hscan : (Token.ofSource "class C\nval x: Int\nfun f() \x7b x \x7d").map
      Token.significant = .ok
        [⟨1, 1, 5, "class", .classKeyword⟩, ⟨7, 1, 7, "C", .identifier⟩,
         ⟨1, 2, 3, "val", .valKeyword⟩, ⟨5, 2, 5, "x", .identifier⟩, ⟨6, 2, 6, ":", .colon⟩,
         ⟨8, 2, 10, "Int", .intType⟩, ⟨1, 3, 3, "fun", .funKeyword⟩,
         ⟨5, 3, 5, "f", .identifier⟩, ⟨6, 3, 6, "(", .openParen⟩, ⟨7, 3, 7, ")", .closeParen⟩,
         ⟨9, 3, 9, "\x7b", .openCurly⟩, ⟨11, 3, 11, "x", .identifier⟩,
         ⟨13, 3, 13, "\x7d", .closeCurly⟩] := by
    decide +kernel
  obtain ⟨tokens, htokens, hsignificant⟩ := map_eq_ok.mp hscan
  refine ⟨tokens, htokens, ?_, fun h => ?_⟩
  · rw [ofTokens, hsignificant]
    decide +kernel
  · have hcode := swallowsNothing_iff.mp h
    rw [hsignificant] at hcode
    obtain ⟨b, hclass, hval, hb⟩ := hcode 2 (Or.inr (Or.inl (by decide)))
      ⟨10, by decide, by decide, by decide⟩ 0 (by decide) (by decide)
    obtain rfl : b = 1 := by omega
    exact absurd hb (by decide)

end Partition

end PredictiveFrontend
