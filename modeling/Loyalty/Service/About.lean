import Loyalty.Service.Basic
import Loyalty.Service.Response

/-!
# What the service says about itself

The fixed answers that name the service and describe how rules are written, and
the one that counts the rules in use.
-/

namespace Loyalty.Service

/-- What the service is and where it answers. -/
def root : Response :=
  .ok (.object [("name", .text "RuleFlow - Airline Loyalty Program"), ("version", .text "1.0.0"),
    ("description", .text "Rule engine backend for dynamic discount logic"),
    ("endpoints", .object [("health", .text "GET /api/health"),
      ("calculate", .text "POST /api/calculate"),
      ("rules", .object [("get", .text "GET /api/rules"), ("post", .text "POST /api/rules"),
        ("validate", .text "POST /api/rules/validate"),
        ("schema", .text "GET /api/rules/schema")])])])

/-- How rules are written. -/
def schema : Response :=
  .ok (.object [("description", .text "Airline Loyalty Program Rule Schema"),
    ("rule_structure", .object [
      ("id", .text "string (required) - Unique identifier for the rule"),
      ("priority", .text "number (optional, default 999) - Lower number = higher priority"),
      ("description", .text "string (optional) - Human-readable description"),
      ("condition", .text "object (required) - Condition to evaluate"),
      ("action", .text "object (required) - Action when condition matches")]),
    ("condition_types", .object [
      ("simple", .object [("description", .text "Single field condition"),
        ("example", tierIsGold),
        ("operators", .list (Operator.all.map fun op => .text op.symbol))]),
      ("compound", .object [("description", .text "Multiple conditions with AND/OR logic"),
        ("example", .object [("operator", .text "AND"),
          ("conditions", .list [tierIsGold, .object [("field", .text "total_spend"),
            ("operator", .text ">"), ("value", .int 5000)]])])])]),
    ("action_structure", .object [
      ("discountPercent", .text "number (optional, default 0) - Discount percentage (0-100)"),
      ("message", .text "string (optional) - Message to display"),
      ("stackable", .text
        "boolean (optional, default true) - false only blocks a repeat of the same rule id")])])
where
  /-- The example of a simple condition. -/
  tierIsGold : Value :=
    .object [("field", .text "tier"), ("operator", .text "=="), ("value", .text "gold")]

/-- Says how many rules are in use. -/
def health : Action Service Response := do
  let s ← Action.get
  let count := match s.engine with
    | some engine => engine.rules.length
    | none => 0
  return .ok (.object [("status", .text "ok"), ("timestamp", .text s.now.stamp),
    ("rulesLoaded", .nat count)])

end Loyalty.Service
