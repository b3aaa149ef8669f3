import ContractTwins.Fingerprint.Forms
import ContractTwins.Main
import ContractTwins.Proofs.AccountedRuns
import ContractTwins.Proofs.ContractByContract
import ContractTwins.Proofs.CorpusOrder
import ContractTwins.Proofs.DeclarationDigests
import ContractTwins.Proofs.DirectoryLoads
import ContractTwins.Proofs.InputFiles
import ContractTwins.Proofs.ModifierDigests
import ContractTwins.Proofs.NamelessTrees
import ContractTwins.Proofs.OptionTexts
import ContractTwins.Proofs.RepeatedClasses
import ContractTwins.Proofs.ReportNames
import ContractTwins.Proofs.UnplacedValues
import ContractTwins.Proofs.WrittenKeys
