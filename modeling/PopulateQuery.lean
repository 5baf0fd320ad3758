import PopulateQuery.Main
import PopulateQuery.Proofs.CommandLine.Printout
import PopulateQuery.Proofs.Fetching
import PopulateQuery.Proofs.Forest.Insertion
import PopulateQuery.Proofs.Invariant
import PopulateQuery.Proofs.LastCondition
import PopulateQuery.Proofs.OptionsFile
import PopulateQuery.Proofs.Permutation
import PopulateQuery.Proofs.Spacing
