import ContentType.Path

namespace ContentType.Path

section Pieces

theorem slash_notMem {path : Path} {p : List UInt8} (h : p ∈ pieces path) : slash ∉ p := by
  have hall : ∀ s : List UInt8, ∀ p ∈ s.splitOn slash, slash ∉ p := by
    intro s
    induction s with
    | nil => simp
    | cons c s ih =>
      rw [List.splitOn_cons_eq_if_modifyHead]
      split
      · simpa using ih
      · rename_i hc
        obtain ⟨q, qs, hq⟩ := List.exists_cons_of_ne_nil (List.splitOn_ne_nil slash s)
        rw [hq, List.forall_mem_cons] at ih
        rw [hq, List.modifyHead_cons, List.forall_mem_cons, List.mem_cons, not_or]
        exact ⟨⟨fun he => hc (by simp [← he]), ih.1⟩, ih.2⟩
  exact hall _ p h

/-- A name in a directory, behind one more slash. -/
def entry (directory : Path) (name : List UInt8) : Path :=
  ⟨directory.bytes ++ slash :: name⟩

theorem pieces_entry (directory : Path) {name : List UInt8} (h : slash ∉ name) :
    pieces (directory.entry name) = directory.pieces ++ [name] := by
  rw [pieces, entry, List.splitOn_append_cons_self, List.splitOn_eq_singleton h]
  rfl

end Pieces

/-- The start of a path and the pieces behind it, told by all its pieces. -/
inductive Begins : List (List UInt8) → Option Component → List (List UInt8) → Prop
  | root (p : List UInt8) (ps : List (List UInt8)) : Begins ([] :: p :: ps) (some .root) (p :: ps)
  | here (ps : List (List UInt8)) : Begins ([dot] :: ps) (some .here) ps
  | empty : Begins [[]] none [[]]
  | name {p : List UInt8} (h : isIdle p = false) (ps : List (List UInt8)) :
      Begins (p :: ps) none (p :: ps)

section Begins

variable {path : Path} {ps body : List (List UInt8)} {start : Option Component}

theorem begins_split (path : Path) : Begins path.pieces path.split.1 path.split.2 := by
  have hne : path.pieces ≠ [] := List.splitOn_ne_nil _ _
  unfold split
  split
  · rename_i hps
    exact hps ▸ .root _ _
  · rename_i hroot
    obtain ⟨p, ps, hps⟩ := List.exists_cons_of_ne_nil hne
    rw [hps] at hroot ⊢
    split
    · rename_i hhere
      obtain rfl : p = [dot] := Option.some.inj hhere
      exact .here ps
    · rename_i hhere
      by_cases hempty : p = []
      · cases ps with
        | nil => exact hempty ▸ .empty
        | cons q ps => exact absurd (by rw [hempty]) (hroot q ps)
      · have hdot : p ≠ [dot] := fun he => hhere (congrArg some he)
        exact .name (by simp [isIdle, hempty, hdot]) ps

theorem Begins.subset (h : Begins ps start body) : body ⊆ ps := by
  cases h with
  | root p ps => exact List.subset_cons_self _ _
  | here ps => exact List.subset_cons_self _ _
  | empty => exact List.Subset.refl _
  | name _ ps => exact List.Subset.refl _

theorem Begins.split_eq (h : Begins ps start body) (hps : path.pieces = ps) :
    path.split = (start, body) := by
  unfold split
  rw [hps]
  cases h with
  | root p ps => rfl
  | here ps => rfl
  | empty => rfl
  | @name p h ps =>
    have hp : p ≠ [] ∧ p ≠ [dot] := by simpa [isIdle] using h
    split
    · rename_i he
      exact absurd (List.cons.inj he).1 hp.1
    · exact if_neg fun he => hp.2 (Option.some.inj he)

/-- The components that pieces behind the start make. -/
def made (body : List (List UInt8)) : List Component :=
  (body.filter (fun p => !isIdle p)).map component

theorem made_append (ps qs : List (List UInt8)) : made (ps ++ qs) = made ps ++ made qs := by
  simp [made]

theorem made_of_idle (h : ∀ p ∈ ps, isIdle p = true) : made ps = [] := by
  simpa [made] using h

theorem made_singleton {p : List UInt8} (h : isIdle p = false) : made [p] = [component p] := by
  simp [made, h]

/-- Idle pieces at the end make nothing. -/
theorem made_reverse_dropWhile (ps : List (List UInt8)) :
    made (ps.dropWhile isIdle).reverse = made ps.reverse := by
  have hidle : ∀ p ∈ (ps.takeWhile isIdle).reverse, isIdle p = true := by
    intro p hp
    exact List.all_eq_true.mp List.all_takeWhile p (List.mem_reverse.mp hp)
  calc made (ps.dropWhile isIdle).reverse
      = made ((ps.dropWhile isIdle).reverse ++ (ps.takeWhile isIdle).reverse) := by
        rw [made_append, made_of_idle hidle, List.append_nil]
    _ = made ps.reverse := by rw [← List.reverse_append, List.takeWhile_append_dropWhile]

theorem made_joinPieces (h : ∀ p ∈ ps, slash ∉ p) :
    made ((joinPieces ps).splitOn slash) = made ps := by
  by_cases hps : ps = []
  · rw [hps]
    rfl
  · rw [joinPieces, List.splitOn_intercalate slash h hps]

theorem Begins.components_eq (h : Begins ps start body) (hps : pieces path = ps) :
    components path = start.toList ++ made body := by
  simp only [components, h.split_eq hps, made]

theorem components_root {rest : List UInt8} (h : path.bytes = slash :: rest) :
    components path = .root :: made (rest.splitOn slash) := by
  obtain ⟨p, ps, hrest⟩ := List.exists_cons_of_ne_nil (List.splitOn_ne_nil slash rest)
  have hps : pieces path = [] :: p :: ps := by
    simp [pieces, h, List.splitOn_cons_eq_if_modifyHead, hrest]
  rw [(Begins.root p ps).components_eq hps, hrest]
  rfl

/-- The text of a start and of pieces of its path names what these make. -/
theorem components_ofPieces {kept : List (List UInt8)} (h : Begins (pieces path) start body)
    (hkept : kept <+: body) (hmade : made body ≠ []) :
    components (ofPieces start kept) = start.toList ++ made kept := by
  have hslash : ∀ p ∈ kept, slash ∉ p := fun p hp => slash_notMem (h.subset (hkept.subset hp))
  have hjoined := made_joinPieces hslash
  generalize pieces path = ps at h
  cases h with
  | root p ps =>
    have hbytes : (ofPieces (some .root) kept).bytes = slash :: joinPieces kept := by
      simp [ofPieces]
    rw [components_root hbytes, hjoined]
    rfl
  | here ps =>
    cases kept with
    | nil =>
      exact (Begins.here []).components_eq (by decide)
    | cons p ps =>
      have hps : pieces (ofPieces (some .here) (p :: ps)) =
          [dot] :: (joinPieces (p :: ps)).splitOn slash := by
        have hdot : dot ≠ slash := by decide
        simp [ofPieces, pieces, List.splitOn_cons_eq_if_modifyHead, hdot]
      rw [(Begins.here _).components_eq hps, hjoined]
  | empty => exact absurd rfl hmade
  | @name p hp ps =>
    cases kept with
    | nil => exact Begins.empty.components_eq (by simp [ofPieces, joinPieces, pieces])
    | cons q qs =>
      obtain rfl : q = p := (List.cons_prefix_cons.mp hkept).1
      apply (Begins.name hp qs).components_eq
      simp [ofPieces, pieces, joinPieces, List.splitOn_intercalate slash hslash]

end Begins

theorem component_ne_root (p : List UInt8) : component p ≠ .root := by
  unfold component
  split <;> exact nofun

section Parents

variable {path : Path} {start : Option Component} {body above : List (List UInt8)}
  {last : List UInt8}

theorem made_of_rest_nil (hrest : body.reverse.dropWhile isIdle = []) : made body = [] := by
  have hmade := made_reverse_dropWhile body.reverse
  rw [hrest, List.reverse_reverse] at hmade
  exact hmade.symm

/-- The last piece that is not idle makes the last component. -/
theorem made_of_rest_cons (hrest : body.reverse.dropWhile isIdle = last :: above) :
    made body = made (above.dropWhile isIdle).reverse ++ [component last] := by
  have hlast : isIdle last = false := by
    simpa [hrest] using List.head?_dropWhile_not isIdle body.reverse
  have hmade := made_reverse_dropWhile body.reverse
  rw [hrest, List.reverse_reverse, List.reverse_cons, made_append, made_singleton hlast] at hmade
  rw [← hmade, made_reverse_dropWhile]

theorem kept_of_rest (hrest : body.reverse.dropWhile isIdle = last :: above) :
    (above.dropWhile isIdle).reverse <+: body := by
  have hsuffix : above <:+ body.reverse :=
    (List.suffix_cons last above).trans (hrest ▸ List.dropWhile_suffix isIdle)
  rw [← List.reverse_suffix, List.reverse_reverse]
  exact (List.dropWhile_suffix isIdle).trans hsuffix

/-- A path without a parent has no component or is the root. Any other is its parent and one
component more. -/
theorem parent_cases (path : Path) :
    (parent? path = none ∧ (components path = [] ∨ components path = [.root])) ∨
    ∃ above last, parent? path = some above ∧ last ≠ .root ∧
      components path = components above ++ [last] := by
  obtain ⟨start, body, hsplit⟩ : ∃ start body, split path = (start, body) := ⟨_, _, rfl⟩
  have hbegins := begins_split path
  have hcomponents := hbegins.components_eq rfl
  rw [hsplit] at hbegins hcomponents
  cases hrest : body.reverse.dropWhile isIdle with
  | nil =>
    have hparent : parent? path = if start = some .here then some ⟨[]⟩ else none := by
      simp only [parent?, hsplit, hrest]
    rw [made_of_rest_nil hrest] at hcomponents
    generalize pieces path = ps at hbegins
    cases hbegins with
    | root p ps => exact Or.inl ⟨hparent.trans (if_neg nofun), Or.inr hcomponents⟩
    | here ps => exact Or.inr ⟨⟨[]⟩, .here, hparent.trans (if_pos rfl), nofun, hcomponents⟩
    | empty => exact Or.inl ⟨hparent.trans (if_neg nofun), Or.inl hcomponents⟩
    | name _ ps => exact Or.inl ⟨hparent.trans (if_neg nofun), Or.inl hcomponents⟩
  | cons last above =>
    have hparent : parent? path = some (ofPieces start (above.dropWhile isIdle).reverse) := by
      simp only [parent?, hsplit, hrest]
    have hmade := made_of_rest_cons hrest
    have hne : made body ≠ [] := by simp [hmade]
    refine Or.inr ⟨_, component last, hparent, component_ne_root last, ?_⟩
    rw [components_ofPieces hbegins (kept_of_rest hrest) hne, hcomponents, hmade, List.append_assoc]

end Parents

/-- What a file or a directory can be called. -/
structure IsName (name : List UInt8) : Prop where
  nonempty : name ≠ []
  unslashed : slash ∉ name
  ne_here : name ≠ [dot]
  ne_up : name ≠ [dot, dot]

section Names

variable {directory : Path} {name : List UInt8}

theorem IsName.not_isIdle (h : IsName name) : isIdle name = false := by
  simp [isIdle, h.nonempty, h.ne_here]

theorem IsName.made_eq (h : IsName name) : made [name] = [.name name] := by
  rw [made_singleton h.not_isIdle, component, if_neg h.ne_up]

theorem Begins.concat {ps body : List (List UInt8)} {start : Option Component}
    (h : Begins ps start body) (hne : ps ≠ [[]]) (p : List UInt8) :
    Begins (ps ++ [p]) start (body ++ [p]) := by
  cases h with
  | root q qs => exact .root q (qs ++ [p])
  | here => exact .here (body ++ [p])
  | empty => exact absurd rfl hne
  | @name q hq qs => exact .name hq (qs ++ [p])

theorem pieces_ne_singleton (h : directory.bytes ≠ []) : directory.pieces ≠ [[]] := by
  intro he
  have hbytes : [slash].intercalate directory.pieces = directory.bytes :=
    List.intercalate_splitOn slash
  rw [he] at hbytes
  exact h hbytes.symm

/-- What stands behind a slash behind a path makes components of its own. -/
theorem components_entry (hd : directory.bytes ≠ []) (hn : slash ∉ name) :
    (directory.entry name).components = directory.components ++ made [name] := by
  have hbegins := begins_split directory
  have hconcat := hbegins.concat (pieces_ne_singleton hd) name
  rw [hconcat.components_eq (pieces_entry directory hn), hbegins.components_eq rfl, made_append,
    List.append_assoc]

/-- The slash in front may be the root. -/
theorem components_closed (hn : slash ∉ name) (directory : Path) :
    (directory.entry name).components = (directory.entry []).components ++ made [name] := by
  by_cases hd : directory.bytes = []
  · have hroot : ∀ name, (directory.entry name).bytes = slash :: name := fun name => by
      rw [entry, hd, List.nil_append]
    rw [components_root (hroot name), components_root (hroot []), List.splitOn_eq_singleton hn]
    rfl
  · rw [components_entry hd hn, components_entry hd List.not_mem_nil]
    simp [made, isIdle]

theorem components_join (h : IsName name) (directory : Path) :
    (directory.join ⟨name⟩).components = directory.components ++ [.name name] := by
  have habsolute : isAbsolute ⟨name⟩ = false := by
    have hhead : name.head? ≠ some slash := fun he => h.unslashed (List.mem_of_head? he)
    simpa [isAbsolute] using hhead
  unfold join
  rw [habsolute, if_neg Bool.false_ne_true]
  split
  · rename_i hd
    have hpieces : pieces ⟨name⟩ = [name] := List.splitOn_eq_singleton h.unslashed
    obtain rfl : directory = ⟨[]⟩ := congrArg Path.mk hd
    rw [(Begins.name h.not_isIdle []).components_eq hpieces, h.made_eq]
    rfl
  · split
    · rename_i _ hlast
      obtain ⟨s, hs⟩ := List.getLast?_eq_some_iff.mp hlast
      obtain rfl : entry ⟨s⟩ [] = directory := congrArg Path.mk hs.symm
      rw [← h.made_eq, ← components_closed h.unslashed, entry, entry, List.append_assoc]
      rfl
    · rename_i hd _
      rw [← h.made_eq]
      exact components_entry hd h.unslashed

end Names

end ContentType.Path
