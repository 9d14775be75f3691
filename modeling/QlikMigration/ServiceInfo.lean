import QlikMigration.Json.Value

/-!
# What the conversion service says about itself
-/

namespace QlikMigration.ServiceInfo

open Json (Value)

/-- The version of the service. -/
def version : String := "1.0.0"

/-- The answer to whether the service is well. -/
def health : Value :=
  .object [("status", .text "healthy"), ("version", .text version)]

/-- The answer at the service's root. -/
def root : Value :=
  .object [
    ("service", .text "Qlik-to-PySpark Converter"),
    ("version", .text version),
    ("docs", .text "/docs")]

end QlikMigration.ServiceInfo
