import PredictiveFrontend.Proofs.Ownership.Placement

/-!
# Partitions

The partitions place every token where it belongs. What is assigned so far agrees with it at every
step; the tokens of a header are held back until it is known whether a body follows, so the tokens
assigned and the tokens of the header together are always the tokens read.
-/

namespace PredictiveFrontend

namespace Ownership

variable {ts : List Token} {n j : Nat} {bodies : List Body}

/-! ### The tokens that are read -/

/-- How far the first tokens are placed, apart from a header that is being read. -/
structure Reached (ts : List Token) (n : Nat) (s : State) (bodies : List Body)
    (opens : List Nat) : Prop where
  /-- Every body has its owner. -/
  owners_eq : s.owners = .topLevel :: bodies.map (Body.owner ts)
  /-- The bodies are those that begin among the tokens read. -/
  mem_bodies : ∀ x, x ∈ bodies ↔ IsBody ts x ∧ x.brace < n
  /-- Bodies stand in the order in which they begin. -/
  sorted : bodies.Pairwise fun x y => x.brace < y.keyword
  /-- The open braces. -/
  stack : OpenStack ts n opens
  /-- What is remembered about each of them. -/
  braces : List.Forall₂ (BraceAt ts bodies) s.braces opens
  /-- What is assigned is placed where it belongs. -/
  assigned : ∀ j p, s.assigned[j]? = some p → ts[j]? = some p.2 ∧ PlacedAt ts bodies j p.1

/-- What is known about a header by the tokens it holds so far. -/
structure Header.Sound (h : Header) : Prop where
  tokens_ne_nil : h.tokens ≠ []
  kind_eq : h.kind =
    if h.tokens.head?.map Token.kind = some .classKeyword then .class_ else .function
  name_eq : h.name = (h.tokens.find? (·.kind == .identifier)).map Token.lexeme

/-- A header that is being read: its tokens are the ones that are not assigned. -/
structure HeldBack (ts : List Token) (n : Nat) (s : State) (h : Header) : Prop where
  isHeader : IsHeader ts s.assigned.length n
  tokens_eq : h.tokens = (ts.take n).drop s.assigned.length
  sound : h.Sound

/-- Outside of headers all tokens read are assigned, inside of one the rest of them is held back. -/
def HeaderAt (ts : List Token) (n : Nat) (s : State) : Prop :=
  match s.header with
  | none => s.assigned.length = n ∧ InCode ts n
  | some h => HeldBack ts n s h

namespace Header

variable {h : Header} {t : Token}

theorem Sound.owner_eq (hs : h.Sound) : h.owner = headerOwner h.tokens := by
  rw [owner, headerOwner, hs.kind_eq, hs.name_eq]

/-- A header of one keyword. -/
theorem Sound.single (hk : t.kind = .classKeyword ∨ t.kind = .funKeyword) :
    Sound ⟨if t.kind = .classKeyword then .class_ else .function, none, [t]⟩ where
  tokens_ne_nil := List.cons_ne_nil _ _
  kind_eq := by simp
  name_eq := by
    rcases hk with hk | hk <;> simp [hk]

/-- The first name stays the first one. -/
theorem Sound.push (hs : h.Sound) (t : Token) : (h.push t).Sound where
  tokens_ne_nil := by simp [Header.push]
  kind_eq := by
    rw [Header.push, List.head?_append_of_ne_nil _ hs.tokens_ne_nil]
    exact hs.kind_eq
  name_eq := by
    rw [Header.push, List.find?_append, hs.name_eq]
    cases hf : h.tokens.find? (·.kind == .identifier) with
    | none =>
      by_cases hk : t.kind = .identifier
      · simp [hk]
      · simp [hk]
    | some first => rfl

end Header

variable {s : State} {opens : List Nat}

/-- Tokens that are assigned in order stay in their places. -/
theorem assigned_assign {P : Nat → Option Nat → Prop} {o : Option Nat} {m : Nat}
    (hbefore : ∀ j p, s.assigned[j]? = some p → ts[j]? = some p.2 ∧ P j p.1)
    (hafter : ∀ j, s.assigned.length ≤ j → j < m → P j o) {tokens : List Token}
    (htokens : tokens = (ts.take m).drop s.assigned.length) (j : Nat) (p : Option Nat × Token)
    (hp : (s.assign o tokens).assigned[j]? = some p) : ts[j]? = some p.2 ∧ P j p.1 := by
  rw [State.assign] at hp
  rcases Nat.lt_or_ge j s.assigned.length with hlt | hge
  · rw [List.getElem?_append_left hlt] at hp
    exact hbefore j p hp
  · rw [List.getElem?_append_right hge, List.getElem?_map, Option.map_eq_some_iff] at hp
    obtain ⟨t, ht, rfl⟩ := hp
    rw [htokens, List.getElem?_drop, Nat.add_sub_cancel' hge] at ht
    have hj : j < m := by
      have hlt := (List.getElem?_eq_some_iff.mp ht).1
      rw [List.length_take] at hlt
      omega
    rw [List.getElem?_take_of_lt hj] at ht
    exact ⟨ht, hafter j hge hj⟩

namespace Reached

theorem initial (ts : List Token) : Reached ts 0 .initial [] [] where
  owners_eq := rfl
  mem_bodies := by simp
  sorted := .nil
  stack := .nil ts
  braces := .nil
  assigned := by simp [State.initial]

/-- The owner that a token is given to is the innermost one. -/
theorem innermost_currentOwner (h : Reached ts n s bodies opens) :
    Innermost ts bodies n s.currentOwner := by
  have hfind := findSome?_owner h.braces h.stack.sorted
  rw [State.currentOwner_eq]
  cases hf : s.braces.findSome? Brace.owner? with
  | none =>
    rw [hf] at hfind
    exact fun y hy hopen => hfind y hy (h.stack.mem _ hopen)
  | some owner =>
    rw [hf] at hfind
    obtain ⟨i, x, rfl, hx, hmem, hinner⟩ := hfind
    exact ⟨x, hx, h.stack.isOpen hmem, fun y hy hopen => hinner y hy (h.stack.mem _ hopen)⟩

/-- Without a new body the bodies are still those among the tokens read. -/
theorem mem_bodies_succ (h : Reached ts n s bodies opens)
    (hbody : ∀ x, IsBody ts x → x.brace ≠ n) (x : Body) :
    x ∈ bodies ↔ IsBody ts x ∧ x.brace < n + 1 := by
  rw [h.mem_bodies]
  refine and_congr_right fun hx => ?_
  have hne := hbody x hx
  omega

/-- A token behind those that are assigned is placed where it belongs. -/
theorem place (h : Reached ts n s bodies opens) (hlen : s.assigned.length = n) {t : Token}
    (ht : ts[n]? = some t) (hbody : ∀ x, IsBody ts x → x.brace ≠ n) {o : Option Nat}
    (ho : PlacedAt ts bodies n o) {braces : List Brace} {opens' : List Nat}
    (hstack : OpenStack ts (n + 1) opens')
    (hbraces : List.Forall₂ (BraceAt ts bodies) braces opens') :
    Reached ts (n + 1) { s.assign o [t] with braces } bodies opens' where
  owners_eq := h.owners_eq
  mem_bodies := h.mem_bodies_succ hbody
  sorted := h.sorted
  stack := hstack
  braces := hbraces
  assigned := by
    have hone : [t] = (ts.take (n + 1)).drop s.assigned.length := by
      rw [hlen, take_succ_drop (Nat.le_refl n) ht]
      simp
    refine assigned_assign h.assigned (fun j hge hlt => ?_) hone
    obtain rfl : j = n := by omega
    exact ho

/-- A token that is not part of an owned header is given to the innermost owner. -/
theorem keep (h : Reached ts n s bodies opens) (hlen : s.assigned.length = n) {t : Token}
    (ht : ts[n]? = some t) (hbody : ∀ x, IsBody ts x → x.brace ≠ n) (hkept : ¬Unowned ts n)
    {braces : List Brace} {opens' : List Nat} (hstack : OpenStack ts (n + 1) opens')
    (hbraces : List.Forall₂ (BraceAt ts bodies) braces opens') :
    Reached ts (n + 1) { s.assign s.currentOwner [t] with braces } bodies opens' :=
  h.place hlen ht hbody (o := some s.currentOwner) ⟨hkept, h.innermost_currentOwner⟩ hstack hbraces

/-- A token that is held back changes nothing but the header. -/
theorem hold (h : Reached ts n s bodies opens) (hn : ¬IsBrace ts n) (header : Option Header) :
    Reached ts (n + 1) { s with header } bodies opens where
  owners_eq := h.owners_eq
  mem_bodies := h.mem_bodies_succ fun _ hx he => hn (he ▸ Or.inl hx.2)
  sorted := h.sorted
  stack := h.stack.skip (fun ho => hn (Or.inl ho)) (fun hc => hn (Or.inr hc))
  braces := h.braces
  assigned := h.assigned

/-- A closing brace is placed where it belongs: with the body it closes it is owned by nobody. -/
theorem close (h : Reached ts n s bodies opens) (hlen : s.assigned.length = n) {t : Token}
    (ht : ts[n]? = some t) (hk : t.kind = .closeCurly) :
    ∃ opens', Reached ts (n + 1) (s.close t) bodies opens' := by
  have hkind : KindAt ts n .closeCurly := (kindAt_iff ht).mpr hk
  have hbody : ∀ x, IsBody ts x → x.brace ≠ n := fun x hx he => by
    subst he
    cases hkind.eq hx.2
  have hstack := h.stack.pop hkind
  have hcloses := fun b => h.stack.closes_iff (b := b) hkind
  have hbraces := h.braces
  refine ⟨opens.tail, ?_⟩
  rw [State.close]
  cases hs : s.braces with
  | nil =>
    rw [hs] at hbraces
    cases hbraces
    refine h.keep hlen ht hbody ?_ hstack (hs ▸ .nil)
    refine not_unowned_of_isBrace (Or.inr hkind) hbody fun _ _ hc => ?_
    cases (hcloses _).mp hc
  | cons brace braces =>
    rw [hs] at hbraces
    obtain ⟨b, rest, hb, hrest, rfl⟩ := List.forall₂_cons_left_iff.mp hbraces
    cases brace with
    | body owner =>
      obtain ⟨i, x, -, hx, rfl⟩ := hb
      have hmem := (h.mem_bodies x).mp (List.mem_of_getElem? hx)
      have hunowned : Unowned ts n := ⟨x, hmem.1, Or.inr ((hcloses _).mpr rfl)⟩
      exact h.place hlen ht hbody (o := none) hunowned hstack hrest
    | block =>
      refine h.keep hlen ht hbody ?_ hstack hrest
      refine not_unowned_of_isBrace (Or.inr hkind) hbody fun x hx hc => ?_
      exact hb x hx (Option.some.inj ((hcloses _).mp hc)).symm

/-- The tokens of a header that is given back belong to the innermost owner. -/
theorem giveBack (h : Reached ts n s bodies opens) {header : Header} (hs : s.header = some header)
    (hh : HeldBack ts n s header) (hend : NoBodyNext ts n) :
    Reached ts n s.giveBack bodies opens := by
  rw [State.giveBack, hs]
  refine ⟨h.owners_eq, h.mem_bodies, h.sorted, h.stack, h.braces, ?_⟩
  refine assigned_assign h.assigned (fun j hge hlt => ?_) hh.tokens_eq
  refine ⟨not_unowned_of_isHeader hh.isHeader hend hge hlt, ?_⟩
  exact h.innermost_currentOwner.of_isHeader hh.isHeader hge (Nat.le_of_lt hlt)

/-- The header of a body is owned by nobody, and neither is the brace behind it. -/
theorem openBody (h : Reached ts n s bodies opens) {header : Header}
    (hh : HeldBack ts n s header) {t : Token} (ht : ts[n]? = some t) (hk : t.kind = .openCurly) :
    Reached ts (n + 1)
      { s.assign none (header.tokens ++ [t]) with
        owners := s.owners ++ [header.owner]
        braces := .body s.owners.length :: s.braces
        header := none }
      (bodies ++ [⟨s.assigned.length, n⟩]) (n :: opens) := by
  have hkind : KindAt ts n .openCurly := (kindAt_iff ht).mpr hk
  have hbody : IsBody ts ⟨s.assigned.length, n⟩ := ⟨hh.isHeader, hkind⟩
  refine ⟨?_, fun x => ?_, ?_, h.stack.push hkind, ?_, ?_⟩
  · rw [List.map_append, List.map_singleton, Body.owner, ← hh.tokens_eq,
      ← hh.sound.owner_eq, ← List.cons_append, ← h.owners_eq]
  · rw [List.mem_append, List.mem_singleton, h.mem_bodies]
    constructor
    · rintro (⟨hx, hlt⟩ | rfl)
      · exact ⟨hx, Nat.lt_succ_of_lt hlt⟩
      · exact ⟨hbody, Nat.lt_succ_self n⟩
    · rintro ⟨hx, hlt⟩
      rcases Nat.lt_succ_iff_lt_or_eq.mp hlt with hlt | he
      · exact Or.inl ⟨hx, hlt⟩
      · obtain ⟨keyword, brace⟩ := x
        simp only at he
        subst he
        obtain rfl : keyword = s.assigned.length := hx.1.unique hh.isHeader
        exact Or.inr rfl
  · refine List.pairwise_append.mpr ⟨h.sorted, List.pairwise_singleton _ _, fun x hx y hy => ?_⟩
    obtain rfl := List.mem_singleton.mp hy
    obtain ⟨hx, hlt⟩ := (h.mem_bodies x).mp hx
    by_contra hge
    exact hh.isHeader.no_brace x.brace (Nat.not_lt.mp hge) hlt (Or.inl hx.2)
  · refine .cons ⟨bodies.length, _, ?_, List.getElem?_concat_length .., rfl⟩ ?_
    · rw [h.owners_eq, List.length_cons, List.length_map]
    · exact h.braces.imp fun _ _ hb => hb.append _
  · have hall : header.tokens ++ [t] = (ts.take (n + 1)).drop s.assigned.length := by
      rw [hh.tokens_eq, take_succ_drop (Nat.le_of_lt hh.isHeader.lt) ht]
    refine assigned_assign (fun j p hp => ?_) (fun j hge hlt => ?_) hall
    · obtain ⟨ht, hplaced⟩ := h.assigned j p hp
      exact ⟨ht, hplaced.append _⟩
    · exact ⟨_, hbody, Or.inl ⟨hge, Nat.le_of_lt_succ hlt⟩⟩

end Reached

/-! ### Steps -/

theorem State.header_close (s : State) (t : Token) : (s.close t).header = s.header := by
  unfold close
  split <;> rfl

theorem State.length_assigned_close (s : State) (t : Token) :
    (s.close t).assigned.length = s.assigned.length + 1 := by
  unfold close
  split <;> simp [assign]

theorem State.header_giveBack (s : State) : s.giveBack.header = none := by
  unfold giveBack
  split
  · rfl
  · next hs => exact hs

/-- With a header that is given back all tokens read are assigned. -/
theorem length_assigned_giveBack {header : Header} (hs : s.header = some header)
    (hh : HeldBack ts n s header) (hn : n ≤ ts.length) : s.giveBack.assigned.length = n := by
  have hlt := hh.isHeader.lt
  rw [State.giveBack, hs]
  simp only [State.assign, List.length_append, List.length_map, hh.tokens_eq, List.length_drop,
    List.length_take]
  omega

/-- Behind a brace there is no header. -/
theorem headerAt_of_isBrace (hs : s.header = none) (hlen : s.assigned.length = n + 1)
    (hn : IsBrace ts n) : HeaderAt ts (n + 1) s := by
  rw [HeaderAt, hs]
  exact ⟨hlen, .of_isBrace hn⟩

namespace Reached

variable {t : Token}

/-- A keyword in plain code begins a header. -/
theorem startHeader (h : Reached ts n s bodies opens) (hlen : s.assigned.length = n)
    (hcode : InCode ts n) (ht : ts[n]? = some t)
    (hk : t.kind = .classKeyword ∨ t.kind = .funKeyword) {kind : OwnerKind}
    (hkind : kind = if t.kind = .classKeyword then .class_ else .function) :
    Reached ts (n + 1) { s with header := some ⟨kind, none, [t]⟩ } bodies opens ∧
      HeaderAt ts (n + 1) { s with header := some ⟨kind, none, [t]⟩ } := by
  have hkeyword : IsKeyword ts n := hk.imp (kindAt_iff ht).mpr (kindAt_iff ht).mpr
  subst hkind hlen
  refine ⟨h.hold hkeyword.not_isBrace _, .start hkeyword hcode, ?_, .single hk⟩
  rw [take_succ_drop (Nat.le_refl _) ht]
  simp

/-- Reading a token outside of headers. -/
theorem readCode (h : Reached ts n s bodies opens) (hs : s.header = none)
    (hlen : s.assigned.length = n) (hcode : InCode ts n) (ht : ts[n]? = some t) :
    ∃ opens', Reached ts (n + 1) (s.readCode t) bodies opens' ∧
      HeaderAt ts (n + 1) (s.readCode t) := by
  have hbody : ∀ x, IsBody ts x → x.brace ≠ n := fun _ hx => hcode.brace_ne hx
  unfold State.readCode
  split
  · next hk => exact ⟨opens, h.startHeader hlen hcode ht (Or.inl hk) (by rw [if_pos hk])⟩
  · next hk => exact ⟨opens, h.startHeader hlen hcode ht (Or.inr hk) (by rw [hk]; rfl)⟩
  · next hk =>
    have hkind : KindAt ts n .openCurly := (kindAt_iff ht).mpr hk
    have hkept := not_unowned_of_isBrace (Or.inl hkind) hbody fun x _ hc => by
      cases hkind.eq hc.kindAt
    refine ⟨n :: opens, h.keep hlen ht hbody hkept (h.stack.push hkind) (.cons hbody h.braces), ?_⟩
    exact headerAt_of_isBrace hs (by simp [State.assign, hlen]) (Or.inl hkind)
  · next hk =>
    obtain ⟨opens', hclose⟩ := h.close hlen ht hk
    refine ⟨opens', hclose, headerAt_of_isBrace ?_ ?_ (Or.inr ((kindAt_iff ht).mpr hk))⟩
    · rw [State.header_close, hs]
    · rw [State.length_assigned_close, hlen]
  · next hc hf ho hcl =>
    have hbrace : ¬IsBrace ts n := not_isBrace_of_kind_ne ht ho hcl
    have hkeyword : ¬IsKeyword ts n := by
      rintro (hk | hk)
      · exact hc ((kindAt_iff ht).mp hk)
      · exact hf ((kindAt_iff ht).mp hk)
    have hstack := h.stack.skip (fun hk => hbrace (Or.inl hk)) (fun hk => hbrace (Or.inr hk))
    have hkept := not_unowned_of_inCode hcode hkeyword hbrace
    refine ⟨opens, h.keep hlen ht hbody hkept hstack h.braces, ?_⟩
    have hnone : (s.assign s.currentOwner [t]).header = none := hs
    rw [HeaderAt, hnone]
    exact ⟨by simp [State.assign, hlen], hcode.succ hkeyword⟩

/-- Reading a token inside of a header. -/
theorem readHeader (h : Reached ts n s bodies opens) {header : Header}
    (hs : s.header = some header) (hh : HeldBack ts n s header) (ht : ts[n]? = some t) :
    ∃ bodies' opens', Reached ts (n + 1) (s.readHeader header t) bodies' opens' ∧
      HeaderAt ts (n + 1) (s.readHeader header t) := by
  unfold State.readHeader
  split
  · next hk =>
    have hkind : KindAt ts n .openCurly := (kindAt_iff ht).mpr hk
    refine ⟨_, _, h.openBody hh ht hk, headerAt_of_isBrace rfl ?_ (Or.inl hkind)⟩
    have hlt := hh.isHeader.lt
    have hlt' := hkind.lt_length
    simp only [State.assign, List.length_append, List.length_map, hh.tokens_eq, List.length_drop,
      List.length_take, List.length_singleton]
    omega
  · next hk =>
    have hkind : KindAt ts n .closeCurly := (kindAt_iff ht).mpr hk
    have hback := h.giveBack hs hh (.of_closeCurly hkind)
    have hlen := length_assigned_giveBack hs hh (Nat.le_of_lt hkind.lt_length)
    obtain ⟨opens', hclose⟩ := hback.close hlen ht hk
    refine ⟨bodies, opens', hclose, headerAt_of_isBrace ?_ ?_ (Or.inr hkind)⟩
    · rw [State.header_close, State.header_giveBack]
    · rw [State.length_assigned_close, hlen]
  · next ho hc =>
    have hbrace : ¬IsBrace ts n := not_isBrace_of_kind_ne ht ho hc
    refine ⟨bodies, opens, h.hold hbrace _, hh.isHeader.succ hbrace, ?_, hh.sound.push t⟩
    rw [take_succ_drop (Nat.le_of_lt hh.isHeader.lt) ht, ← hh.tokens_eq]
    rfl

/-- Every token that is read is placed, or held back with a header. -/
theorem read (h : Reached ts n s bodies opens) (hh : HeaderAt ts n s) (ht : ts[n]? = some t) :
    ∃ bodies' opens', Reached ts (n + 1) (s.read t) bodies' opens' ∧
      HeaderAt ts (n + 1) (s.read t) := by
  rw [HeaderAt] at hh
  rw [State.read]
  cases hs : s.header with
  | none =>
    rw [hs] at hh
    obtain ⟨opens', hread⟩ := h.readCode hs hh.1 hh.2 ht
    exact ⟨bodies, opens', hread⟩
  | some header =>
    rw [hs] at hh
    exact h.readHeader hs hh ht

end Reached

/-- The first tokens are placed, up to a header that is being read. -/
theorem exists_reached (ts : List Token) (n : Nat) (hn : n ≤ ts.length) :
    ∃ bodies opens, Reached ts n ((ts.take n).foldl State.read .initial) bodies opens ∧
      HeaderAt ts n ((ts.take n).foldl State.read .initial) := by
  induction n with
  | zero => exact ⟨[], [], .initial ts, rfl, fun _ h => absurd h (Nat.not_lt_zero _)⟩
  | succ n ih =>
    obtain ⟨bodies, opens, h, hh⟩ := ih (Nat.le_of_succ_le hn)
    have ht : ts[n]? = some ts[n] := List.getElem?_eq_getElem hn
    rw [List.take_add_one, ht, List.foldl_append]
    exact h.read hh ht

/-- At the end of the input all tokens are placed. -/
theorem exists_reached_giveBack (ts : List Token) :
    ∃ bodies opens, Reached ts ts.length (ts.foldl State.read .initial).giveBack bodies opens ∧
      (ts.foldl State.read .initial).giveBack.assigned.length = ts.length := by
  obtain ⟨bodies, opens, h, hh⟩ := exists_reached ts ts.length (Nat.le_refl _)
  rw [List.take_length] at h hh
  refine ⟨bodies, opens, ?_⟩
  rw [HeaderAt] at hh
  cases hs : (ts.foldl State.read .initial).header with
  | none =>
    rw [hs] at hh
    rw [State.giveBack, hs]
    exact ⟨h, hh.1⟩
  | some header =>
    rw [hs] at hh
    exact ⟨h.giveBack hs hh (.length ts), length_assigned_giveBack hs hh (Nat.le_refl _)⟩

/-- Where all tokens are assigned, they are assigned in order. -/
theorem Reached.map_snd_assigned (h : Reached ts n s bodies opens)
    (hlen : s.assigned.length = ts.length) : s.assigned.map Prod.snd = ts := by
  refine List.ext_getElem? fun j => ?_
  rw [List.getElem?_map]
  cases hp : s.assigned[j]? with
  | none =>
    rw [List.getElem?_eq_none_iff, hlen] at hp
    exact (List.getElem?_eq_none hp).symm
  | some p => exact (h.assigned j p hp).1.symm

end Ownership

namespace Partition

open Ownership

/-- The significant tokens that are placed with an owner, in order. -/
def tokensAt (places : List (Option Nat)) (ts : List Token) (i : Nat) : List Token :=
  ((places.zip ts).filter (·.1 == some i)).map Prod.snd

/-- The partitions of any tokens are the top level and one partition for every body, in the order of
the bodies. Every significant token has one place: the headers of bodies, the braces behind them and
the braces that close these belong to nobody, every other token to the innermost owner whose brace
is open in front of it. A partition holds the tokens that are placed there, in order. -/
theorem ofTokens_places (tokens : List Token) :
    ∃ (bodies : List Body) (places : List (Option Nat)),
      (∀ x, x ∈ bodies ↔ IsBody (Token.significant tokens) x) ∧
      bodies.Pairwise (fun x y => x.brace < y.keyword) ∧
      places.length = (Token.significant tokens).length ∧
      (∀ j o, places[j]? = some o → PlacedAt (Token.significant tokens) bodies j o) ∧
      ofTokens tokens =
        (Owner.topLevel :: bodies.map (Body.owner (Token.significant tokens))).zipIdx.map
          fun (owner, i) => ⟨owner, tokensAt places (Token.significant tokens) i⟩ := by
  obtain ⟨bodies, opens, h, hlen⟩ := exists_reached_giveBack (Token.significant tokens)
  generalize hs : ((Token.significant tokens).foldl State.read .initial).giveBack = s at h hlen
  have htokens : s.assigned.map Prod.snd = Token.significant tokens := by
    refine List.ext_getElem? fun j => ?_
    rw [List.getElem?_map]
    cases hp : s.assigned[j]? with
    | none =>
      rw [List.getElem?_eq_none_iff, hlen] at hp
      exact (List.getElem?_eq_none hp).symm
    | some p => exact (h.assigned j p hp).1.symm
  have hzip : (s.assigned.map Prod.fst).zip (Token.significant tokens) = s.assigned :=
    (List.zip_of_prod rfl htokens).symm
  refine ⟨bodies, s.assigned.map Prod.fst, fun x => ?_, h.sorted, ?_, fun j o ho => ?_, ?_⟩
  · rw [h.mem_bodies]
    exact and_iff_left_of_imp fun hx => hx.2.lt_length
  · rw [List.length_map, hlen]
  · rw [List.getElem?_map, Option.map_eq_some_iff] at ho
    obtain ⟨p, hp, rfl⟩ := ho
    exact (h.assigned j p hp).2
  · rw [ofTokens, hs, State.partitions, h.owners_eq]
    simp only [tokensAt, hzip]

end Partition

end PredictiveFrontend
