import ContractTwins.Fingerprint.Record

/-!
How algorithms, modes, contract kinds and the options of a fingerprint are read as JSON. Unlike the
options of a corpus entry these are known names, and any other name is refused.
-/
namespace ContractTwins

def Algorithm.form : Json.Form Algorithm :=
  .choice (all.map fun algorithm => (algorithm.name, algorithm))

def Mode.form : Json.Form Mode :=
  .choice (all.map fun mode => (mode.name, mode))

def Syntax.ContractKind.form : Json.Form ContractKind :=
  .choice (all.map fun kind => (kind.name, kind))

def HashOptions.form : Json.Form HashOptions :=
  .record "HashOptions"
    [.of "algorithm" true Algorithm.form fun algorithm options => { options with algorithm },
     .of "mode" true Mode.form fun mode options => { options with mode }]
    ⟨.default, .exact⟩

end ContractTwins
