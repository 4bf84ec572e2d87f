import MessagePattern.Message.Exchange
import MessagePattern.Proofs.Json.Building

/-!
# Messages written as JSON and read back

The JSON form of a message loses nothing, whatever the texts and however deep the message, and it
is read back if there is room for its nested values.
-/

namespace MessagePattern

mutual

/-- The branches of each placeholder in a node, at every depth. -/
def Node.branchLists : Node → List Branches
  | .choice _ _ cases => cases :: nestedBranchLists cases
  | .plural _ _ _ branches => branches :: nestedBranchLists branches
  | _ => []

def Message.branchLists : Message → List Branches
  | [] => []
  | node :: nodes => node.branchLists ++ Message.branchLists nodes

def nestedBranchLists : Branches → List Branches
  | [] => []
  | ⟨_, message⟩ :: branches => Message.branchLists message ++ nestedBranchLists branches

end

/-- A new selector is added at the end. -/
theorem Branch.insert_of_not_mem
    {α : Type} {selector : String}
    (message : α) {branches : List (Branch α)}
    (isNew : selector ∉ branches.map Branch.selector) :
    Branch.insert selector message branches = branches ++ [⟨selector, message⟩] := by
  induction branches with
  | nil =>
      rfl
  | cons branch branches inductionHypothesis =>
      rw [List.map_cons, List.mem_cons, not_or] at isNew
      rw [Branch.insert, if_neg (Ne.symm isNew.1), inductionHypothesis isNew.2]
      rfl

theorem Branch.foldl_insert_of_distinct
    {α : Type}
    (entries branches : List (Branch α))
    (distinct : ((branches ++ entries).map Branch.selector).Nodup) :
    entries.foldl (fun branches entry => Branch.insert entry.selector entry.message branches)
      branches = branches ++ entries := by
  induction entries generalizing branches with
  | nil =>
      exact (List.append_nil branches).symm
  | cons entry entries inductionHypothesis =>
      have isNew : entry.selector ∉ branches.map Branch.selector := by
        rw [List.map_append, List.map_cons, List.nodup_append] at distinct
        exact fun given => distinct.2.2 _ given _ List.mem_cons_self rfl
      rw [List.append_cons] at distinct ⊢
      rw [List.foldl_cons, Branch.insert_of_not_mem _ isNew]
      exact inductionHypothesis _ distinct

/-- Setting selectors that are all different gives the branches as they are. -/
theorem Branch.ofList_of_distinct
    {α : Type} {entries : List (Branch α)}
    (distinct : (entries.map Branch.selector).Nodup) :
    Branch.ofList entries = entries :=
  Branch.foldl_insert_of_distinct entries [] distinct

mutual

/-- How deep the arrays and objects of a node's JSON form are nested. -/
def Node.nesting : Node → Nat
  | .text _ | .number => 1
  | .argument _ | .styled _ _ none => 3
  | .styled _ _ (some _) => 4
  | .choice _ _ cases => 4 + branchesNesting cases
  | .plural _ _ _ branches => 3 + branchesNesting branches

def Message.nesting : Message → Nat
  | [] => 1
  | node :: nodes => max (node.nesting + 1) (Message.nesting nodes)

def branchesNesting : Branches → Nat
  | [] => 1
  | ⟨_, message⟩ :: branches => max (Message.nesting message + 1) (branchesNesting branches)

end

@[simp] theorem PluralKind.ofName?_name (kind : PluralKind) : ofName? kind.name = some kind := by
  cases kind <;> decide

@[simp] theorem offsetOfJson?_natural (offset : UInt32) :
    offsetOfJson? (.natural offset.toNat) = some offset := by
  simp [offsetOfJson?, offset.toNat_lt]

section Placeholders

variable (room : Nat)

theorem Node.ofJson?_zero (value : Json) : Node.ofJson? 0 value = none := by
  simp [Node.ofJson?]

theorem Node.ofJson?_placeholder (value : Json) :
    Node.ofJson? (room + 1) (.tagged "Placeholder" value) = placeholderOfJson? room value := by
  simp [Node.ofJson?]

@[simp] theorem placeholderOfJson?_number :
    placeholderOfJson? room (.text "ArgNumRef") = some .number := by
  cases room <;> simp [placeholderOfJson?]

/-- The tag of a placeholder says how its fields are read, with what two objects leave of the
room. -/
theorem Node.ofJson?_fields (tag : String) (fields : List (String × Json)) :
    Node.ofJson? (room + 2) (.tagged "Placeholder" (.tagged tag (.record fields))) =
      if tag = "Argument" then argumentOfJson? room (.record fields)
      else if tag = "Styled" then styledOfJson? room (.record fields)
      else if tag = "Plural" then pluralOfJson? room (.record fields)
      else none := by
  have notBare : (Json.tagged tag (.record fields)).name? (room + 1) = none := rfl
  simp only [Node.ofJson?_placeholder, placeholderOfJson?, notBare, Json.tagged?_tagged,
    Option.bind_eq_bind, Option.bind_some, reduceCtorEq, if_false]
  split <;> simp_all

/-- A placeholder with fields needs room for three objects. -/
theorem Node.ofJson?_fields_of_lt
    (small : room < 3) (tag : String) (fields : List (String × Json)) :
    Node.ofJson? room (.tagged "Placeholder" (.tagged tag (.record fields))) = none := by
  have notBare : (Json.tagged tag (.record fields)).name? 0 = none := rfl
  match room with
  | 0 => exact Node.ofJson?_zero _
  | 1 => simp [Node.ofJson?_placeholder, placeholderOfJson?, notBare]
  | 2 => simp [Node.ofJson?_fields, argumentOfJson?, styledOfJson?, pluralOfJson?]

theorem argumentOfJson?_record (key : String) :
    argumentOfJson? (room + 1) (.record [("key", .text key)]) = some (.argument key) := by
  have fields := Json.fields?_record [("key", .text key)] 1 (by simp)
  simp only [List.map_cons, List.map_nil] at fields
  simp [argumentOfJson?, fields]

theorem styledOfJson?_record (key type : String) (style : Json) :
    styledOfJson? (room + 1) (.record [("key", .text key), ("kind", .text type), ("style", style)]) =
      if style matches .null then some (.styled key type none)
      else detailOfJson? room key type style := by
  have fields :=
    Json.fields?_record [("key", .text key), ("kind", .text type), ("style", style)] 3 (by simp)
  simp only [List.map_cons, List.map_nil] at fields
  cases style <;> simp [styledOfJson?, fields]

theorem detailOfJson?_text (key type style : String) :
    detailOfJson? room key type (.tagged "Text" (.text style)) =
      if 1 ≤ room then some (.styled key type (some style)) else none := by
  cases room <;> simp [detailOfJson?]

theorem detailOfJson?_cases (key type : String) (cases : Json) :
    detailOfJson? room key type (.tagged "Cases" cases) =
      if 1 ≤ room then (branchesOfJson? (room - 1) cases).map (.choice key type) else none := by
  cases room with
  | zero => simp [detailOfJson?]
  | succ room => cases read : branchesOfJson? room cases <;> simp [detailOfJson?, read]

theorem pluralOfJson?_record
    (key : String) (kind : PluralKind) (offset : UInt32) (branches : List (Json.Member Json)) :
    pluralOfJson? (room + 1)
        (.record [("key", .text key), ("kind", .text kind.name),
          ("offset", .natural offset.toNat), ("children", .object branches)]) =
      (branchesOfJson? room (.object branches)).map (.plural key kind offset) := by
  have fields :=
    Json.fields?_record [("key", .text key), ("kind", .text kind.name),
      ("offset", .natural offset.toNat), ("children", .object branches)] 4 (by simp)
  simp only [List.map_cons, List.map_nil] at fields
  cases read : branchesOfJson? room (.object branches) <;> simp [pluralOfJson?, fields, read]

theorem Node.ofJson?_styledToJson (key type : String) (style : Json) :
    Node.ofJson? room (styledToJson key type style) =
      if 3 ≤ room then
        if style matches .null then some (.styled key type none)
        else detailOfJson? (room - 3) key type style
      else none := by
  rw [styledToJson]
  split
  · next fits =>
      obtain ⟨room, rfl⟩ := Nat.exists_eq_add_of_le' fits
      rw [Node.ofJson?_fields, if_neg (by decide), if_pos rfl, styledOfJson?_record]
      rfl
  · next tight =>
      exact Node.ofJson?_fields_of_lt room (by omega) _ _

theorem Node.ofJson?_styledToJson_tagged (key type tag : String) (value : Json) :
    Node.ofJson? room (styledToJson key type (.tagged tag value)) =
      if 3 ≤ room then detailOfJson? (room - 3) key type (.tagged tag value) else none :=
  Node.ofJson?_styledToJson room key type (.tagged tag value)

end Placeholders

/-! ## Reading what was written

By induction on the message. The room is kept general: each array or object that is looked into
takes one level of it, as it adds one level to the nesting. -/

theorem Message.one_le_nesting (message : Message) : 1 ≤ message.nesting := by
  induction message with
  | nil =>
      exact Nat.le_refl 1
  | cons node nodes inductionHypothesis =>
      exact Nat.le_trans inductionHypothesis (Nat.le_max_right _ _)

theorem one_le_branchesNesting (branches : Branches) : 1 ≤ branchesNesting branches := by
  induction branches with
  | nil =>
      exact Nat.le_refl 1
  | cons branch branches inductionHypothesis =>
      exact Nat.le_trans inductionHypothesis (Nat.le_max_right _ _)

/-- The branch that a member of an object stands for. -/
def branchOfJson? (room : Nat) (member : Json.Member Json) : Option (Branch Message) := do
  return ⟨← Json.unescape? member.key, ← Message.ofJson? room member.value⟩

theorem branchesOfJson?_object (room : Nat) (members : List (Json.Member Json)) :
    branchesOfJson? (room + 1) (.object members) =
      (members.mapM (branchOfJson? room)).map Branch.ofList := by
  rw [Option.map_eq_bind]
  rfl

theorem branchOfJson?_escape (room : Nat) (selector : String) (value : Json) :
    branchOfJson? room ⟨Json.escape selector, value⟩ =
      (Message.ofJson? room value).map (⟨selector, ·⟩) := by
  rw [branchOfJson?, Json.unescape?_escape, Option.map_eq_bind]
  rfl

/-- Two items are both read if there is room for both. -/
theorem bind_ite_bind_ite
    {α β γ : Type} {p q : Prop} [Decidable p] [Decidable q]
    (first : α) (second : β) (combine : α → β → γ) :
    ((if p then some first else none).bind fun a =>
        (if q then some second else none).bind fun b => some (combine a b)) =
      if p ∧ q then some (combine first second) else none := by
  by_cases hp : p <;> by_cases hq : q <;> simp [hp, hq]

theorem Message.ofJson?_toJson_of_mapM
    {message : Message}
    (readsNodes : ∀ room, (nodesToJson message).mapM (fun item => Node.ofJson? room item) =
      if message.nesting ≤ room + 1 then some message else none)
    (room : Nat) :
    Message.ofJson? room message.toJson = if message.nesting ≤ room then some message else none := by
  cases room with
  | zero =>
      have nested := message.one_le_nesting
      rw [if_neg (by omega)]
      simp [Message.ofJson?]
  | succ room =>
      rw [Message.toJson, Message.ofJson?, readsNodes]

theorem branchesOfJson?_object_of_mapM
    {branches : Branches}
    (distinct : (branches.map Branch.selector).Nodup)
    (readsBranches : ∀ room, (branchesToJson branches).mapM (branchOfJson? room) =
      if branchesNesting branches ≤ room + 1 then some branches else none)
    (room : Nat) :
    branchesOfJson? room (.object (branchesToJson branches)) =
      if branchesNesting branches ≤ room then some branches else none := by
  cases room with
  | zero =>
      have nested := one_le_branchesNesting branches
      rw [if_neg (by omega)]
      simp [branchesOfJson?]
  | succ room =>
      rw [branchesOfJson?_object, readsBranches, Option.map_if, Branch.ofList_of_distinct distinct]

mutual

theorem Node.ofJson?_toJson
    (node : Node)
    (distinct : ∀ branches ∈ node.branchLists, (branches.map Branch.selector).Nodup)
    (room : Nat) :
    Node.ofJson? room node.toJson = if node.nesting ≤ room then some node else none := by
  match node with
  | .text content =>
      cases room with
      | zero => exact Node.ofJson?_zero _
      | succ room => simp [Node.toJson, Node.ofJson?, Node.nesting]
  | .number =>
      cases room with
      | zero => exact Node.ofJson?_zero _
      | succ room => simp [Node.toJson, Node.ofJson?_placeholder, Node.nesting]
  | .argument key =>
      rw [Node.toJson, Node.nesting]
      split
      · next fits =>
          obtain ⟨room, rfl⟩ := Nat.exists_eq_add_of_le' fits
          rw [Node.ofJson?_fields, if_pos rfl, argumentOfJson?_record]
      · next tight =>
          exact Node.ofJson?_fields_of_lt room (by omega) _ _
  | .styled key type none =>
      rw [Node.toJson, Node.nesting, Node.ofJson?_styledToJson]
      rfl
  | .styled key type (some style) =>
      rw [Node.toJson, Node.nesting, Node.ofJson?_styledToJson_tagged, detailOfJson?_text,
        ← ite_and]
      exact if_congr (by omega) rfl rfl
  | .choice key type cases =>
      obtain ⟨distinctHere, distinctBelow⟩ := List.forall_mem_cons.mp distinct
      have readsCases :=
        branchesOfJson?_object_of_mapM distinctHere (mapM_branchesToJson cases distinctBelow)
      rw [Node.toJson, Node.nesting, Node.ofJson?_styledToJson_tagged, detailOfJson?_cases,
        readsCases, Option.map_if, ← ite_and, ← ite_and]
      exact if_congr (by omega) rfl rfl
  | .plural key kind offset branches =>
      obtain ⟨distinctHere, distinctBelow⟩ := List.forall_mem_cons.mp distinct
      have readsBranches :=
        branchesOfJson?_object_of_mapM distinctHere (mapM_branchesToJson branches distinctBelow)
      rw [Node.toJson, Node.nesting]
      by_cases fits : 3 ≤ room
      · obtain ⟨room, rfl⟩ := Nat.exists_eq_add_of_le' fits
        rw [Node.ofJson?_fields, if_neg (by decide), if_neg (by decide), if_pos rfl,
          pluralOfJson?_record, readsBranches, Option.map_if]
        exact if_congr (by omega) rfl rfl
      · rw [Node.ofJson?_fields_of_lt room (by omega), if_neg (by omega)]

theorem mapM_nodesToJson
    (message : Message)
    (distinct : ∀ branches ∈ message.branchLists, (branches.map Branch.selector).Nodup)
    (room : Nat) :
    (nodesToJson message).mapM (fun item => Node.ofJson? room item) =
      if message.nesting ≤ room + 1 then some message else none := by
  match message with
  | [] =>
      simp [nodesToJson, Message.nesting]
  | node :: nodes =>
      obtain ⟨distinctHere, distinctAfter⟩ := List.forall_mem_append.mp distinct
      have readsNode := node.ofJson?_toJson distinctHere room
      have readsNodes := mapM_nodesToJson nodes distinctAfter room
      simp only [nodesToJson, List.mapM_cons, readsNode, readsNodes, Option.bind_eq_bind,
        Option.pure_def]
      simp only [bind_ite_bind_ite, Message.nesting, Nat.max_le, Nat.add_le_add_iff_right]

theorem mapM_branchesToJson
    (branches : Branches)
    (distinct : ∀ nested ∈ nestedBranchLists branches, (nested.map Branch.selector).Nodup)
    (room : Nat) :
    (branchesToJson branches).mapM (branchOfJson? room) =
      if branchesNesting branches ≤ room + 1 then some branches else none := by
  match branches with
  | [] =>
      simp [branchesToJson, branchesNesting]
  | ⟨selector, message⟩ :: branches =>
      obtain ⟨distinctHere, distinctAfter⟩ := List.forall_mem_append.mp distinct
      have readsMessage := Message.ofJson?_toJson_of_mapM (mapM_nodesToJson message distinctHere) room
      have readsBranches := mapM_branchesToJson branches distinctAfter room
      rw [Message.toJson] at readsMessage
      simp only [branchesToJson, List.mapM_cons, branchOfJson?_escape, readsMessage, readsBranches,
        Option.map_if, Option.bind_eq_bind, Option.pure_def]
      simp only [bind_ite_bind_ite, branchesNesting, Nat.max_le, Nat.add_le_add_iff_right]

end

theorem hasLiterals_placeholder
    {members : List (String × Json)}
    (tag : String) (haveLiterals : ∀ member ∈ members, member.2.HasLiterals) :
    (Json.tagged "Placeholder" (.tagged tag (.record members))).HasLiterals :=
  Json.hasLiterals_tagged _ (Json.hasLiterals_tagged _ (Json.hasLiterals_record haveLiterals))

theorem hasLiterals_styledToJson
    {style : Json}
    (key type : String) (hasLiterals : style.HasLiterals) :
    (styledToJson key type style).HasLiterals :=
  hasLiterals_placeholder _ (by simp [Json.hasLiterals_text, hasLiterals])

mutual

theorem Node.hasLiterals_toJson (node : Node) : node.toJson.HasLiterals := by
  match node with
  | .text content =>
      exact Json.hasLiterals_tagged _ (Json.hasLiterals_text content)
  | .argument key =>
      exact hasLiterals_placeholder _ (by simp [Json.hasLiterals_text])
  | .number =>
      exact Json.hasLiterals_tagged _ (Json.hasLiterals_text _)
  | .styled key type none =>
      exact hasLiterals_styledToJson key type trivial
  | .styled key type (some style) =>
      exact hasLiterals_styledToJson key type
        (Json.hasLiterals_tagged _ (Json.hasLiterals_text style))
  | .choice key type cases =>
      have casesHaveLiterals : (Json.object (branchesToJson cases)).HasLiterals :=
        membersHaveLiterals_branchesToJson cases
      exact hasLiterals_styledToJson key type (Json.hasLiterals_tagged _ casesHaveLiterals)
  | .plural key kind offset branches =>
      have branchesHaveLiterals : (Json.object (branchesToJson branches)).HasLiterals :=
        membersHaveLiterals_branchesToJson branches
      exact hasLiterals_placeholder _
        (by simp [Json.hasLiterals_text, Json.hasLiterals_natural, branchesHaveLiterals])

theorem itemsHaveLiterals_nodesToJson (message : Message) :
    Json.itemsHaveLiterals (nodesToJson message) := by
  match message with
  | [] =>
      trivial
  | node :: nodes =>
      exact ⟨node.hasLiterals_toJson, itemsHaveLiterals_nodesToJson nodes⟩

theorem membersHaveLiterals_branchesToJson (branches : Branches) :
    Json.membersHaveLiterals (branchesToJson branches) := by
  match branches with
  | [] =>
      trivial
  | ⟨selector, message⟩ :: branches =>
      exact ⟨Json.readLiteral?_escape selector, itemsHaveLiterals_nodesToJson message,
        membersHaveLiterals_branchesToJson branches⟩

end

/-- Reading the text of a message is reading its JSON form. -/
theorem Message.ofJsonTextWithin?_of_isBlank
    {spacing : Json.Spacing}
    (isBlank : spacing.IsBlank) (room : Nat) (message : Message) :
    Message.ofJsonTextWithin? room (message.toJson.toText spacing) =
      Message.ofJson? room message.toJson := by
  have hasLiterals : message.toJson.HasLiterals := itemsHaveLiterals_nodesToJson message
  rw [Message.ofJsonTextWithin?, Json.ofText?_toText isBlank hasLiterals]
  rfl

/-- A message is read back from its JSON text, in either layout, as soon as there is room for the
nested values. -/
theorem Message.ofJsonTextWithin?_toText
    (message : Message)
    (distinct : ∀ branches ∈ message.branchLists, (branches.map Branch.selector).Nodup)
    (room : Nat) :
    Message.ofJsonTextWithin? room (message.toJson.toText .pretty) =
        (if message.nesting ≤ room then some message else none) ∧
      Message.ofJsonTextWithin? room (message.toJson.toText .compact) =
        (if message.nesting ≤ room then some message else none) := by
  have readsMessage := Message.ofJson?_toJson_of_mapM (mapM_nodesToJson message distinct) room
  constructor
  · rw [Message.ofJsonTextWithin?_of_isBlank Json.Spacing.isBlank_pretty, readsMessage]
  · rw [Message.ofJsonTextWithin?_of_isBlank Json.Spacing.isBlank_compact, readsMessage]

/-- A plural with the largest offset, around a choice whose texts need escapes. -/
def escapedNest : Message :=
  [.plural "n\n" .ordinal 4294967295
    [⟨"", [.number, .text "\""]⟩,
      ⟨"other", [.choice "" "plural" [⟨"é\u0000", [.text "", .styled "\\" "\u007f" none]⟩]]⟩],
    .text "\t😀", .text "/"]

theorem Message.ofJsonTextWithin?_escapedNest :
    Message.ofJsonTextWithin? 15 (escapedNest.toJson.toText .pretty) = some escapedNest ∧
      Message.ofJsonTextWithin? 15 (escapedNest.toJson.toText .compact) = some escapedNest :=
  Message.ofJsonTextWithin?_toText escapedNest (by decide) 15

end MessagePattern
