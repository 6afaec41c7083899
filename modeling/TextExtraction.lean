import TextExtraction.Timestamps
import TextExtraction.Lib.Runs
import TextExtraction.Requests
import TextExtraction.TaskRepository
import TextExtraction.TaskAggregate
import TextExtraction.TaskLease
import TextExtraction.Stubs
import TextExtraction.TaskPurge
import TextExtraction.TaskSummary
import TextExtraction.TaskRetention
import TextExtraction.TaskTornReads
import TextExtraction.TaskRefinement
import TextExtraction.TaskIsolation
import TextExtraction.TaskFrontier
import TextExtraction.ModelArtifacts
import TextExtraction.TaskOwners
import TextExtraction.WorkerLoop
import TextExtraction.ModelAnswers
import TextExtraction.ModelMetadata
import TextExtraction.RequestAcceptance
import TextExtraction.StoredRepository
import TextExtraction.TaskQueueDrain
import TextExtraction.TaskPolling
import TextExtraction.TaskApiCreate
import TextExtraction.ModelApiLaw
import TextExtraction.WorkerDelivery
import TextExtraction.TaskApiAgreement
import TextExtraction.ExtractionApi
