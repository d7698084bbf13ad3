import RelationalDb.Database.Host
import RelationalDb.Plan.Linked
import RelationalDb.Proofs.Database.Isolation
import RelationalDb.Proofs.Plan.Answers
import RelationalDb.Proofs.Plan.Arrangement
import RelationalDb.Proofs.Database.Changes
import RelationalDb.Proofs.Database.Endings
import RelationalDb.Proofs.Database.Atomicity
import RelationalDb.Proofs.Database.OptionChanges
import RelationalDb.Proofs.Database.SchemaChanges
import RelationalDb.Proofs.Database.Replacements
import RelationalDb.Proofs.Store.JournalHistories
import RelationalDb.Proofs.Plan.Runs
import RelationalDb.Proofs.Plan.Equalities
import RelationalDb.Proofs.Plan.GroupedColumns
import RelationalDb.Proofs.Database.StoredIndices
import RelationalDb.Proofs.Query.WrittenValues
import RelationalDb.Proofs.Store.Restoring
import RelationalDb.Proofs.MixedValues
import RelationalDb.Proofs.Relation.Joins
import RelationalDb.Proofs.Database.TouchedIndices
import RelationalDb.Proofs.Database.RowIds
import RelationalDb.Proofs.Query.FlatConjunctions
import RelationalDb.Proofs.Index.GuardedScans
import RelationalDb.Proofs.Database.StoreNames
import RelationalDb.Proofs.Plan.EditedTrees
import RelationalDb.Proofs.Index.IntegerSets
