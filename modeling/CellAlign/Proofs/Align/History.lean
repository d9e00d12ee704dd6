import CellAlign.Proofs.Align.Settling
import CellAlign.Proofs.Text.Trimming
import CellAlign.Proofs.Tree.Changing

/-!
# The history of a cell

A cell can be given an alignment again after a pass, and be realigned by a further pass, with other
options and as often as one likes.  Each such round leaves a class token or a style declaration, and
neither gets in the way of the other.  The tokens are appended to the class.  The declarations are
put behind the style that was there at first, which is trimmed and closed with a semicolon once; a
merged style needs neither again, so that it only grows from there.

* `opening_append_declaration`: a merged style is a fixed point of trimming and closing;
* `Properties.historyOf`: what the rounds make of the properties of a cell;
* `history_of_cell`: that they make this of the cell at a place of a tree.
-/

namespace CellAlign

/-- A round of realigning: the alignment that a cell is given, and the options of the pass behind
it. -/
structure Round where
  alignment : PropertyValue
  options : Options

namespace Round

/-- The token that a round leaves: in class mode the one of its alignment, if it has one. -/
def token? (round : Round) : Option String :=
  if round.options.method = .byClass then
    round.options.classes.pairs.lookup round.alignment.text
  else none

/-- The declaration that a round leaves if it leaves no token. -/
def declaration? (round : Round) : Option String :=
  match round.token? with
  | some _ => none
  | none => some ("text-align: " ++ round.alignment.text ++ ";")

/-- The tokens that rounds leave. -/
def tokens (rounds : List Round) : List String := rounds.filterMap token?

/-- The declarations that rounds leave. -/
def declarations (rounds : List Round) : List String := rounds.filterMap declaration?

variable (round : Round)

/-- The token of a round is the one that realigning chooses. -/
theorem token?_eq : round.token? = Properties.token? round.options round.alignment.text := by
  obtain ⟨alignment, ⟨⟨center, left, right⟩, method⟩⟩ := round
  cases method with
  | byStyle => rfl
  | byClass =>
      simp only [token?, Properties.token?, ClassNames.pairs, ClassNames.get?, if_true,
        List.lookup_cons, List.lookup_nil]
      by_cases hcenter : alignment.text = "center"
      · simp [hcenter]
      by_cases hleft : alignment.text = "left"
      · simp [hleft]
      by_cases hright : alignment.text = "right"
      · simp [hright]
      · simp [hcenter, hleft, hright, beq_eq_false_iff_ne.mpr]

/-- Each round leaves a token or a declaration. -/
theorem length_tokens_add_length_declarations (rounds : List Round) :
    (tokens rounds).length + (declarations rounds).length = rounds.length := by
  induction rounds with
  | nil => rfl
  | cons round rounds ih =>
      cases htoken : round.token? with
      | some token =>
          simp only [tokens, declarations, declaration?, htoken, List.filterMap_cons,
            List.length_cons] at ih ⊢
          omega
      | none =>
          simp only [tokens, declarations, declaration?, htoken, List.filterMap_cons,
            List.length_cons] at ih ⊢
          omega

end Round

/-! ## Merged styles -/

namespace Properties

/-- What stands in front of the first declaration that is merged into a style: the style itself if
it is a string that is not blank, trimmed and closed with a semicolon. -/
def opening (style : Option PropertyValue) : String :=
  match style with
  | some (.string text) =>
    if Text.trimBlank text = "" then ""
    else if (Text.trimBlank text).toList.getLast? = some ';' then Text.trimBlank text ++ " "
    else Text.trimBlank text ++ "; "
  | _ => ""

/-- A declaration is merged into a style behind its opening. -/
theorem mergeStyle_eq (style : Option PropertyValue) (alignment : String) :
    mergeStyle style alignment = opening style ++ declaration alignment := by
  unfold mergeStyle opening
  cases style with
  | none => simp
  | some value =>
      cases value with
      | string text =>
          by_cases hblank : Text.trimBlank text = ""
          · simp [PropertyValue.string?, hblank]
          by_cases hclosed : (Text.trimBlank text).toList.getLast? = some ';'
          · simp [PropertyValue.string?, hblank, hclosed, String.append_assoc]
          · simp [PropertyValue.string?, hblank, hclosed, String.append_assoc]
      | null | bool | number | list => simp [PropertyValue.string?]

/-- What is put in front of a declaration does not begin with a blank. -/
theorem not_isMargin_of_mem_head?_opening (style : Option PropertyValue) :
    ∀ c ∈ (opening style).toList.head?, Text.isMargin c = false := by
  intro c hc
  unfold opening at hc
  split at hc
  · next text =>
    have hhead {more : String} (hne : Text.trimBlank text ≠ "")
        (hmem : c ∈ (Text.trimBlank text ++ more).toList.head?) : Text.isMargin c = false := by
      have hchars : (Text.trimBlank text).toList ≠ [] :=
        fun h => hne (String.toList_eq_nil_iff.mp h)
      rw [String.toList_append, List.head?_append_of_ne_nil _ hchars] at hmem
      exact (Text.isTrimmed_trimBlank text).head c hmem
    by_cases hne : Text.trimBlank text = ""
    · rw [if_pos hne] at hc
      cases hc
    by_cases hclosed : (Text.trimBlank text).toList.getLast? = some ';'
    · rw [if_neg hne, if_pos hclosed] at hc
      exact hhead hne hc
    · rw [if_neg hne, if_neg hclosed] at hc
      exact hhead hne hc
  · cases hc

/-- A style that needs neither be trimmed nor be closed. -/
structure IsClosed (style : String) : Prop where
  trimmed : Text.IsTrimmed Text.isMargin style.toList
  last : style.toList.getLast? = some ';'

/-- A declaration closes what stands in front of it. -/
theorem isClosed_append_declaration {before : String}
    (h : ∀ c ∈ before.toList.head?, Text.isMargin c = false) (alignment : String) :
    IsClosed (before ++ declaration alignment) := by
  have hchars : (declaration alignment).toList =
      't' :: ("ext-align: ".toList ++ alignment.toList ++ [';']) := by
    simp [declaration]
  have hlast : (before ++ declaration alignment).toList.getLast? = some ';' := by
    rw [String.toList_append, hchars]
    simp [List.getLast?_append, List.getLast?_cons]
  refine ⟨⟨?_, ?_⟩, hlast⟩
  · intro c hc
    rw [String.toList_append, hchars] at hc
    cases hbefore : before.toList with
    | nil =>
        rw [hbefore] at hc
        obtain rfl : 't' = c := by simpa using hc
        decide
    | cons d rest =>
        rw [hbefore] at hc
        apply h c
        rw [hbefore]
        simpa using hc
  · intro c hc
    obtain rfl : ';' = c := Option.some.inj (hlast.symm.trans hc)
    decide

/-- A closed style is taken as it is. -/
theorem opening_of_isClosed {style : String} (h : IsClosed style) :
    opening (some (.string style)) = style ++ " " := by
  have htrimmed : Text.trimBlank style = style := Text.trimBlank_of_isTrimmed h.trimmed
  have hne : style ≠ "" := by
    intro hempty
    have hlast := h.last
    rw [hempty] at hlast
    cases hlast
  simp only [opening, htrimmed, if_neg hne, h.last, if_true]

/-- A merged style is neither trimmed nor closed again. -/
theorem opening_append_declaration (style : Option PropertyValue) (alignment : String) :
    opening (some (.string (opening style ++ declaration alignment))) =
      opening style ++ declaration alignment ++ " " :=
  opening_of_isClosed
    (isClosed_append_declaration (not_isMargin_of_mem_head?_opening style) alignment)

/-! ## What the rounds make of a cell -/

/-- The class behind some tokens: they are appended, if there are any. -/
def classBehind (className : ClassName) (tokens : List String) : ClassName :=
  if tokens = [] then className else .list (className.tokens ++ tokens)

/-- The style behind some declarations: they are put behind the opening of the style, with spaces
between them, if there are any. -/
def styleBehind (style : Option PropertyValue) (declarations : List String) :
    Option PropertyValue :=
  if declarations = [] then style
  else some (.string (opening style ++ Text.join " " declarations))

/-- The properties of a cell after some rounds. -/
def historyOf (properties : Properties) (rounds : List Round) : Properties where
  align := if rounds = [] then properties.align else none
  className := classBehind properties.className (Round.tokens rounds)
  style := styleBehind properties.style (Round.declarations rounds)
  other := properties.other

/-- The properties of a cell after one round. -/
def afterRound (properties : Properties) (round : Round) : Properties :=
  { properties with align := some round.alignment }.restate round.options round.alignment.text

/-- A token comes before those behind it. -/
theorem classBehind_cons (className : ClassName) (token : String) (tokens : List String) :
    classBehind className (token :: tokens) = classBehind (className.push token) tokens := by
  cases tokens with
  | nil => simp [classBehind, ClassName.push]
  | cons next tokens => simp [classBehind, ClassName.push, ClassName.tokens]

/-- A declaration comes before those behind it. -/
theorem styleBehind_cons (style : Option PropertyValue) (alignment : String)
    (declarations : List String) :
    styleBehind style (declaration alignment :: declarations) =
      styleBehind (some (.string (mergeStyle style alignment))) declarations := by
  cases declarations with
  | nil => simp [styleBehind, mergeStyle_eq, Text.join]
  | cons next declarations =>
      simp only [styleBehind, reduceCtorEq, if_false]
      rw [mergeStyle_eq, opening_append_declaration, Text.join]
      simp only [String.append_assoc]

/-- The first of some rounds comes before the others. -/
theorem historyOf_cons (properties : Properties) (round : Round) (rounds : List Round) :
    properties.historyOf (round :: rounds) = (properties.afterRound round).historyOf rounds := by
  have halign : (properties.afterRound round).align = none := align_restate _ _ _
  cases htoken : round.token? with
  | some token =>
      have hround : properties.afterRound round =
          { properties with className := properties.className.push token, align := none } := by
        rw [afterRound, restate, ← Round.token?_eq, htoken]
      have hdeclaration : round.declaration? = none := by rw [Round.declaration?, htoken]
      simp only [historyOf, hround, Round.tokens, Round.declarations, List.filterMap_cons, htoken,
        hdeclaration, classBehind_cons]
      split <;> simp_all
  | none =>
      have hround : properties.afterRound round =
          { properties with
            style := some (.string (mergeStyle properties.style round.alignment.text)),
            align := none } := by
        rw [afterRound, restate, ← Round.token?_eq, htoken]
      have hdeclaration : round.declaration? = some (declaration round.alignment.text) := by
        rw [Round.declaration?, htoken, declaration]
      simp only [historyOf, hround, Round.tokens, Round.declarations, List.filterMap_cons, htoken,
        hdeclaration, styleBehind_cons]
      split <;> simp_all

/-- Rounds that leave the same tokens and the same declarations, in whatever order among each other,
make the same of a cell. -/
theorem historyOf_congr (properties : Properties) {rounds others : List Round}
    (htokens : Round.tokens others = Round.tokens rounds)
    (hdeclarations : Round.declarations others = Round.declarations rounds) :
    properties.historyOf others = properties.historyOf rounds := by
  have hlength : others.length = rounds.length := by
    rw [← Round.length_tokens_add_length_declarations, htokens, hdeclarations,
      Round.length_tokens_add_length_declarations]
  have hnil : others = [] ↔ rounds = [] := by
    rw [← List.length_eq_zero_iff, hlength, List.length_eq_zero_iff]
  simp only [historyOf, htokens, hdeclarations, hnil]

end Properties

/-! ## Rounds at a place of a tree -/

namespace Node

/-- Gives an element an alignment; nothing if the node is no element or has no properties. -/
def setAlign (alignment : PropertyValue) (node : Node) : Except Unit (Unit × Node) :=
  match node with
  | .element tag (some properties) children =>
    .ok ((), .element tag (some { properties with align := some alignment }) children)
  | _ => .error ()

/-- A tree after some rounds: in each the element at a place is given an alignment, and then a pass
goes over the tree; nothing if there is no such element. -/
def afterRounds? (path : List Nat) (tree : Node) : List Round → Option Node
  | [] => some tree
  | round :: rounds =>
    match changeAt () (setAlign round.alignment) tree path with
    | .ok (_, tree) => afterRounds? path (run round.options tree).tree rounds
    | .error _ => none

/-- A round realigns the cell at its place. -/
theorem at?_afterRound {tree : Node} {path : List Nat} {tag : String} {properties : Properties}
    {children : List Node} (hat : tree.at? path = some (.element tag (some properties) children))
    (htag : tag = "td" ∨ tag = "th") {round : Round} (hround : round.alignment ≠ .null) :
    ∃ next children', changeAt () (setAlign round.alignment) tree path = .ok ((), next) ∧
      (run round.options next).tree.at? path =
        some (.element tag (some (properties.afterRound round)) children') := by
  obtain ⟨next, hnext⟩ : ∃ next,
      changeAt () (setAlign round.alignment) tree path = .ok ((), next) :=
    exists_changeAt_eq hat rfl
  obtain ⟨old, new, hold, hnew, hchange⟩ := (changedAt_of_changeAt hnext).at?_self
  obtain rfl := Option.some.inj (hold.symm.trans hat)
  obtain ⟨-, rfl⟩ := Prod.mk.inj (Except.ok.inj hchange)
  have hcell : IsCell tag { properties with align := some round.alignment } round.alignment :=
    ⟨htag, rfl, hround⟩
  refine ⟨next, realignList round.options children, hnext, ?_⟩
  rw [run_tree, at?_realign, hnew, Option.map_some, realign, Properties.realign,
    cellAlignment?_of_isCell hcell]
  rfl

/-- Rounds make of a cell what their history says. -/
theorem at?_afterRounds? {tree : Node} {path : List Nat} {tag : String} {properties : Properties}
    {children : List Node} (hat : tree.at? path = some (.element tag (some properties) children))
    (htag : tag = "td" ∨ tag = "th") {rounds : List Round}
    (hrounds : ∀ round ∈ rounds, round.alignment ≠ .null) :
    ∃ last children', tree.afterRounds? path rounds = some last ∧
      last.at? path = some (.element tag (some (properties.historyOf rounds)) children') := by
  induction rounds generalizing tree properties children with
  | nil => exact ⟨tree, children, rfl, hat⟩
  | cons round rounds ih =>
      obtain ⟨hround, hrounds⟩ := List.forall_mem_cons.mp hrounds
      obtain ⟨next, children', hnext, hafter⟩ := at?_afterRound hat htag hround
      obtain ⟨last, children'', hlast, hcell⟩ := ih hafter hrounds
      refine ⟨last, children'', ?_, ?_⟩
      · rw [afterRounds?, hnext]
        exact hlast
      · rw [Properties.historyOf_cons]
        exact hcell

/-- The history of the cell at a place of a tree.  After any round no alignment is left, and the
open-ended properties are those of the beginning.  The class has its first tokens and then those of
the rounds that leave one; it keeps its shape if there are none and is a list otherwise.  The style
stays as it was if no round leaves a declaration, and otherwise is its opening with the declarations
behind it.  Rounds that leave tokens and rounds that leave declarations can be interleaved in any
way. -/
theorem history_of_cell {tree : Node} {path : List Nat} {tag : String} {properties : Properties}
    {children : List Node} (hat : tree.at? path = some (.element tag (some properties) children))
    (htag : tag = "td" ∨ tag = "th") {rounds : List Round}
    (hrounds : ∀ round ∈ rounds, round.alignment ≠ .null) :
    ∃ last p children', tree.afterRounds? path rounds = some last ∧
      last.at? path = some (.element tag (some p) children') ∧
      (rounds ≠ [] → p.align = none) ∧ p.other = properties.other ∧
      p.className.tokens = properties.className.tokens ++ Round.tokens rounds ∧
      (Round.tokens rounds = [] → p.className = properties.className) ∧
      (Round.tokens rounds ≠ [] → ∃ tokens, p.className = .list tokens) ∧
      (Round.declarations rounds = [] → p.style = properties.style) ∧
      (Round.declarations rounds ≠ [] → p.style = some (.string
        (Properties.opening properties.style ++ Text.join " " (Round.declarations rounds)))) ∧
      ∀ others : List Round, (∀ round ∈ others, round.alignment ≠ .null) →
        Round.tokens others = Round.tokens rounds →
        Round.declarations others = Round.declarations rounds →
        ∃ last' children'', tree.afterRounds? path others = some last' ∧
          last'.at? path = some (.element tag (some p) children'') := by
  obtain ⟨last, children', hlast, hcell⟩ := at?_afterRounds? hat htag hrounds
  refine ⟨last, properties.historyOf rounds, children', hlast, hcell, ?_, rfl, ?_, ?_, ?_, ?_, ?_,
    ?_⟩
  · intro hne
    exact if_neg hne
  · by_cases htokens : Round.tokens rounds = []
    · simp [Properties.historyOf, Properties.classBehind, htokens]
    · simp only [Properties.historyOf, Properties.classBehind, if_neg htokens, ClassName.tokens]
  · intro htokens
    exact if_pos htokens
  · intro htokens
    exact ⟨_, if_neg htokens⟩
  · intro hdeclarations
    exact if_pos hdeclarations
  · intro hdeclarations
    exact if_neg hdeclarations
  · intro others hothers htokens hdeclarations
    rw [← Properties.historyOf_congr properties htokens hdeclarations]
    exact at?_afterRounds? hat htag hothers

/-- A cell with a class and a style goes through three rounds, two of them in class mode. -/
theorem history_of_cell_three_rounds :
    let tree : Node := .root [.element "td"
      (some { className := .single "wide", style := some (.string " color: red ") }) []]
    let rounds : List Round :=
      [⟨.string "left", { method := .byClass }⟩, ⟨.string "center", {}⟩,
        ⟨.string "justify", { method := .byClass }⟩]
    (∀ round ∈ rounds, round.alignment ≠ .null) ∧ ∃ last children',
      tree.afterRounds? [0] rounds = some last ∧
      last.at? [0] = some (.element "td"
        (some
          { className := .list ["wide", "left"]
            style := some (.string "color: red; text-align: center; text-align: justify;") })
        children') := by
  intro tree rounds
  have hrounds : ∀ round ∈ rounds, round.alignment ≠ .null := by simp [rounds]
  have hat : tree.at? [0] = some (.element "td"
      (some { className := .single "wide", style := some (.string " color: red ") }) []) := rfl
  obtain ⟨last, p, children', hlast, hcell, halign, hother, htokens, -, hlist, -, hstyle, -⟩ :=
    history_of_cell hat (Or.inl rfl) hrounds
  refine ⟨hrounds, last, children', hlast, ?_⟩
  obtain ⟨align, className, style, other⟩ := p
  obtain rfl : align = none := halign (by decide)
  obtain rfl : other = [] := hother
  obtain ⟨tokens, rfl⟩ := hlist (by decide)
  obtain rfl : tokens = ["wide", "left"] := htokens
  obtain rfl := hstyle (by decide)
  rw [hcell]
  have hmerged : Properties.opening (some (.string " color: red ")) ++
      Text.join " " (Round.declarations rounds) =
        "color: red; text-align: center; text-align: justify;" := by
    decide +kernel
  rw [hmerged]

end Node

end CellAlign
